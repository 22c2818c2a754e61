import ModelAudit.Proofs.LegibleTranslation
import ModelAudit.Proofs.QuotedText
import ModelAudit.Proofs.TranslatedTerms

/-!
# Translations pass between quotes

Identifiers, type variables and numbers are made of idle code points, whatever
symbols and literals they come from, and all else in the text of a term comes
from HOL: its forms, the names of its types, and the spellings of operators. So
the scanner passes the text of every translated term.
-/

namespace ModelAudit

open Glance

/-! ## Types -/

namespace HolType

/-- The text of the type passes, whatever comes before it. -/
def Inert (type : HolType) : Prop :=
  ∀ before, Passes before type.text .other

theorem inert_function {argument result : HolType}
    (argumentInert : argument.Inert) (resultInert : result.Inert) :
    (function argument result).Inert := by
  intro before
  have arrow : Passes .other " \\<Rightarrow> " .other := by decide
  simpa only [text, List.append_assoc] using
    Passes.parens (((argumentInert _).append arrow).append (resultInert _))

theorem inert_word (width : Int) : (word width).Inert := by
  intro before
  have constructor : Passes .other " word" .other := by decide
  exact (passes_integer width).append constructor

theorem inert_typeVariable (name : Text) :
    (named (Identifier.typeVariable name)).Inert := by
  intro before
  have prime : Passes before "'" .other := by cases before <;> decide
  exact prime.append
    (Text.inert_of_isWord (Identifier.isWord_escape name)).inside

theorem inert_basic : ∀ type ∈ [bool, int, real, string], type.Inert := by
  intro type member before
  cases before <;> revert type <;> decide

/-- A named type is a basic one or a type variable, and functions go between
types of sorts. -/
def MadeOfSorts (userSorts : List Text) : HolType → Prop
  | named name => named name ∈ [bool, int, real, string] ∨
      ∃ sort, name = Identifier.typeVariable sort
  | word _ => True
  | function argument result =>
      (∃ index : SmtSort, index.toHol userSorts = .ok argument) ∧
        ∃ element : SmtSort, element.toHol userSorts = .ok result

theorem madeOfSorts_of_basic {userSorts : List Text} {type : HolType}
    (basic : type ∈ [bool, int, real, string]) :
    type.MadeOfSorts userSorts := by
  simp only [List.mem_cons, List.not_mem_nil, or_false] at basic
  rcases basic with rfl | rfl | rfl | rfl <;> exact .inl (by decide)

/-- Types are made of the basic types and of variables for declared sorts. -/
theorem madeOfSorts_of_toHol {userSorts : List Text} {sort : SmtSort}
    {type : HolType} (translated : sort.toHol userSorts = .ok type) :
    type.MadeOfSorts userSorts := by
  have variableOrNone {sort : SmtSort} {name : Text}
      (translated : (if (sort.isSimple && userSorts.contains name) = true then
          Except.ok (named (Identifier.typeVariable name))
        else Except.error ⟨sort.text, "sort"⟩ : Except Unsupported HolType) =
          .ok type) :
      type.MadeOfSorts userSorts := by
    split at translated
    · obtain rfl := Except.ok.inj translated
      exact .inr ⟨name, rfl⟩
    · cases translated
  have basicType {basic : HolType} (member : basic ∈ [bool, int, real, string])
      (same : Except.ok basic = (Except.ok type : Except Unsupported HolType)) :
      type.MadeOfSorts userSorts := by
    obtain rfl := Except.ok.inj same
    exact madeOfSorts_of_basic member
  cases sort with
  | mk name params indices =>
      rw [SmtSort.toHol.eq_def] at translated
      dsimp only at translated
      split at translated
      · exact basicType (by decide) translated
      split at translated
      · exact basicType (by decide) translated
      split at translated
      · exact basicType (by decide) translated
      split at translated
      · exact basicType (by decide) translated
      split at translated
      · obtain rfl := Except.ok.inj translated
        trivial
      split at translated
      · split at translated
        · obtain ⟨argument, argumentType, translated⟩ :=
            Outcome.bind_eq_ok.mp translated
          obtain ⟨result, resultType, translated⟩ :=
            Outcome.bind_eq_ok.mp translated
          obtain rfl := Except.ok.inj translated
          exact ⟨⟨_, argumentType⟩, ⟨_, resultType⟩⟩
        · exact variableOrNone translated
      · exact variableOrNone translated

/-- The type of every sort is inert, whatever the names of sorts are. -/
theorem inert_of_toHol {userSorts : List Text} {sort : SmtSort} {type : HolType}
    (translated : sort.toHol userSorts = .ok type) : type.Inert := by
  induction type generalizing sort with
  | named name =>
      rcases madeOfSorts_of_toHol translated with basic | ⟨sortName, rfl⟩
      · exact inert_basic _ basic
      · exact inert_typeVariable sortName
  | word width => exact inert_word width
  | function argument result argumentHypothesis resultHypothesis =>
      obtain ⟨⟨_, argumentType⟩, ⟨_, resultType⟩⟩ :=
        madeOfSorts_of_toHol translated
      exact inert_function (argumentHypothesis argumentType)
        (resultHypothesis resultType)

end HolType

/-! ## Terms -/

namespace HolTerm

/-- The text of the term passes where a term may stand. -/
def Inert (term : HolTerm) : Prop :=
  term.text.Inert

theorem inert_of_passes {term : HolTerm}
    (passes : ∀ before, Passes before term.text .other) :
    term.Inert :=
  ⟨passes _, passes _⟩

variable {function argument value test first second left right body : HolTerm}
  {arguments parts : List HolTerm} {type : HolType} {digits symbol : Text}

theorem inert_numeral (digitsInert : digits.Inert) (typeInert : type.Inert) :
    (numeral digits type).Inert := by
  have colons : Passes .other "::" .colon := by decide
  simpa only [Inert, text, List.append_assoc] using
    Text.inert_parens ((digitsInert.first.append colons).append (typeInert _))

theorem passes_argumentsText (inert : ∀ argument ∈ arguments, argument.Inert) :
    Passes .other (argumentsText arguments) .other := by
  have blank : Passes .other " " .other := by decide
  induction arguments with
  | nil =>
      rw [argumentsText]
      rfl
  | cons argument arguments inductionHypothesis =>
      obtain ⟨here, later⟩ := List.forall_mem_cons.mp inert
      rw [argumentsText]
      exact (blank.append here.inside).append (inductionHypothesis later)

theorem inert_apply (functionPasses : Passes .opening function.text .other)
    (argumentsInert : ∀ argument ∈ arguments, argument.Inert) :
    (apply function arguments).Inert := by
  simpa only [Inert, text, List.append_assoc] using
    Text.inert_parens
    (functionPasses.append (passes_argumentsText argumentsInert))

theorem inert_operation
    (symbolPasses : Passes .other (" " ++ symbol ++ " ") .other)
    (leftInert : left.Inert) (rightInert : right.Inert) :
    (operation symbol left right).Inert := by
  simpa only [Inert, text, List.append_assoc] using
    Text.inert_parens
    ((leftInert.first.append symbolPasses).append rightInert.inside)

theorem passes_conjunctsText (nonempty : parts ≠ [])
    (inert : ∀ part ∈ parts, part.Inert) :
    (conjunctsText parts).Inert := by
  have mark : Passes .other " \\<and> " .other := by decide
  induction parts with
  | nil => exact absurd rfl nonempty
  | cons part parts inductionHypothesis =>
      obtain ⟨here, later⟩ := List.forall_mem_cons.mp inert
      cases parts with
      | nil =>
          rw [conjunctsText]
          exact here
      | cons next parts =>
          have others := inductionHypothesis (List.cons_ne_nil _ _) later
          rw [conjunctsText]
          · exact ⟨(here.inside.append mark).append others.inside,
              (here.first.append mark).append others.inside⟩
          · exact List.cons_ne_nil _ _

theorem inert_conjunction (nonempty : parts ≠ [])
    (inert : ∀ part ∈ parts, part.Inert) :
    (conjunction parts).Inert := by
  rw [Inert, text]
  exact Text.inert_parens (passes_conjunctsText nonempty inert).first

theorem inert_conditional (testInert : test.Inert) (firstInert : first.Inert)
    (secondInert : second.Inert) : (conditional test first second).Inert := by
  refine inert_of_passes fun before => ?_
  have lead : Passes before "(if " .other := by cases before <;> decide
  have thenMark : Passes .other " then " .other := by decide
  have elseMark : Passes .other " else " .other := by decide
  have closing : Passes .other ")" .other := by decide
  rw [text]
  exact (((((lead.append testInert.inside).append thenMark).append
    firstInert.inside).append
    elseMark).append secondInert.inside).append closing

theorem inert_update (functionInert : function.Inert)
    (argumentInert : argument.Inert) (valueInert : value.Inert) :
    (update function argument value).Inert := by
  refine inert_of_passes fun before => ?_
  have lead : Passes before "(" .opening := by cases before <;> decide
  have opening : Passes .other "(" .opening := by decide
  have mark : Passes .other " := " .other := by decide
  have closing : Passes .other "))" .other := by decide
  rw [text]
  exact (((((lead.append functionInert.first).append opening).append
    argumentInert.first).append mark).append valueInert.inside).append closing

theorem inert_constantFunction (typeInert : type.Inert)
    (valueInert : value.Inert) :
    (constantFunction type value).Inert := by
  refine inert_of_passes fun before => ?_
  have lead : Passes before "(\\<lambda>_::" .colon := by
    cases before <;> decide
  have stop : Passes .other ". " .other := by decide
  have closing : Passes .other ")" .other := by decide
  rw [text]
  exact (((lead.append (typeInert _)).append stop).append
    valueInert.inside).append closing

theorem inert_typed (symbolPasses : Passes .opening symbol .other)
    (argumentsInert : ∀ argument ∈ arguments, argument.Inert)
    (typeInert : type.Inert) :
    (typed symbol arguments type).Inert := by
  have mark : Passes .other " :: " .colonBlank := by decide
  simpa only [Inert, text, List.append_assoc] using
    Text.inert_parens
    (((symbolPasses.append (passes_argumentsText argumentsInert)).append
    mark).append (typeInert _))

theorem inert_isIntegral (valueInert : value.Inert) :
    (isIntegral value).Inert := by
  refine inert_of_passes fun before => ?_
  have lead : Passes before "(of_int (floor " .other := by
    cases before <;> decide
  have equals : Passes .other ") = " .other := by decide
  have closing : Passes .other ")" .other := by decide
  rw [text]
  exact (((lead.append valueInert.inside).append equals).append
    valueInert.inside).append closing

theorem inert_characters (codes : List Nat) : (characters codes).Inert := by
  refine inert_of_passes fun before => ?_
  have lead : Passes before "([" .other := by cases before <;> decide
  have separator : Passes .other ", " .other := by decide
  have closing : Passes .other "]::string)" .other := by decide
  rw [text]
  refine (lead.append (passes_join separator ?_)).append closing
  refine List.forall_mem_map.mpr fun code _ => ?_
  have mark : Passes .other "CHR 0x" .other := by decide
  refine mark.append (passes_of_idle fun point member => ?_)
  exact not_mem_of_test (by decide)
    (Text.isHexDigit_of_mem_upperHexadecimal member)

theorem passes_equationsText {equations : List (Text × HolTerm)}
    (identifiers : ∀ equation ∈ equations, equation.fst.Inert)
    (values : ∀ equation ∈ equations, equation.snd.Inert) :
    Passes .other (equationsText equations) .other := by
  have equals : Passes .other " = " .other := by decide
  have mark : Passes .other "; " .other := by decide
  induction equations with
  | nil =>
      rw [equationsText]
      rfl
  | cons equation equations inductionHypothesis =>
      obtain ⟨identifier, value⟩ := equation
      obtain ⟨identifierInert, laterIdentifiers⟩ :=
        List.forall_mem_cons.mp identifiers
      obtain ⟨valueInert, laterValues⟩ := List.forall_mem_cons.mp values
      have here :=
        (identifierInert.inside.append equals).append valueInert.inside
      cases equations with
      | nil =>
          rw [equationsText]
          exact here
      | cons next equations =>
          rw [equationsText]
          · exact (here.append mark).append
              (inductionHypothesis laterIdentifiers laterValues)
          · exact List.cons_ne_nil _ _

theorem inert_letIn {equations : List (Text × HolTerm)}
    (identifiers : ∀ equation ∈ equations, equation.fst.Inert)
    (values : ∀ equation ∈ equations, equation.snd.Inert)
    (bodyInert : body.Inert) :
    (letIn equations body).Inert := by
  refine inert_of_passes fun before => ?_
  have lead : Passes before "(let " .other := by cases before <;> decide
  have mark : Passes .other " in " .other := by decide
  have closing : Passes .other ")" .other := by decide
  rw [text]
  exact (((lead.append (passes_equationsText identifiers values)).append
    mark).append bodyInert.inside).append closing

theorem inert_bound {binder : HolBinder} {names : List (Text × HolType)}
    (identifiers : ∀ entry ∈ names, entry.fst.Inert)
    (types : ∀ entry ∈ names, entry.snd.Inert)
    (bodyInert : body.Inert) : (bound binder names body).Inert := by
  have symbolPasses : Passes .opening binder.symbol .other := by
    cases binder <;> decide
  have blank : Passes .other " " .other := by decide
  have stop : Passes .other ". " .other := by decide
  have entries :
      Passes .other (Text.words (names.map variableText)) .other := by
    refine passes_join blank (List.forall_mem_map.mpr fun entry member => ?_)
    have colons : Passes .other "::" .colon := by decide
    simpa only [variableText, List.append_assoc] using
      Passes.parens (((identifiers entry member).first.append colons).append
        (types entry member _))
  simpa only [Inert, text, List.append_assoc] using
    Text.inert_parens
    (((symbolPasses.append entries).append stop).append bodyInert.inside)

theorem inert_of_isWord {identifier : Text}
    (word : InnerSyntax.isWord identifier = true) :
    (name identifier).Inert := by
  rw [Inert, text]
  exact Text.inert_of_isWord word

end HolTerm

/-! ## Spellings -/

/-- The operator passes between two arguments, or the function passes before its
arguments. -/
def Fixity.Inert : Fixity → Prop
  | infixed symbol => Passes .other (" " ++ symbol ++ " ") .other
  | prefixed function => Passes .opening function .other
  | _ => False

instance (fixity : Fixity) : Decidable fixity.Inert :=
  match fixity with
  | .infixed _ | .prefixed _ => inferInstanceAs (Decidable (Passes _ _ _))
  | .templated _ | .sectioned _ => inferInstanceAs (Decidable False)

theorem Fixity.Inert.known {fixity : Fixity} (inert : fixity.Inert) :
    fixity.Known Inert := by
  cases fixity with
  | infixed symbol => exact inert
  | prefixed function => exact inert
  | templated template => exact inert.elim
  | sectioned symbol => exact inert.elim

theorem Operator.inert_defaultSpelling {operator : Operator}
    {spelling : Spelling} (known : operator.defaultSpelling? = some spelling)
    (noTemplate : ∀ template, spelling.fixity ≠ .templated template) :
    spelling.fixity.Inert := by
  cases operator <;> cases known <;>
    first | decide | exact absurd rfl (noTemplate _)

open HolTerm in
/-- An application is inert if its parts are, since its operator passes between
them. -/
theorem inert_compositional :
    Compositional Fixity.Inert HolType.Inert HolTerm.Inert where
  truth := ⟨by decide, by decide⟩
  call _ _ known each := inert_apply known each
  applySection _ _ known _ := known.elim
  operation _ _ _ known left right := inert_operation known left right
  conjunction _ several each :=
    inert_conjunction (by rintro rfl; simp at several) each
  functions := by decide
  index number := ⟨passes_decimal number, passes_decimal number⟩
  ofSort _ _ _ translated := HolType.inert_of_toHol translated
  apply _ _ function each := inert_apply function.first each
  conditional _ _ _ test first second := inert_conditional test first second
  update _ _ _ function argument value := inert_update function argument value
  constantFunction _ _ type value := inert_constantFunction type value
  typed _ _ _ known each type := inert_typed known each type
  isIntegral _ number := inert_isIntegral number

/-! ## Translations -/

namespace Translation

variable {symbols : SymbolTable} {userSorts : List Text}

theorem writes_default (operator : Operator) :
    Vocabulary.Writes ⟨.default, userSorts⟩ Fixity.Inert operator :=
  Vocabulary.writes_of_defaultSpelling fun known noTemplate =>
    (Operator.inert_defaultSpelling known noTemplate).known

/-- Literals are written with letters, digits and a few marks. -/
theorem inert_literal {value : Literal} {translated : HolTerm}
    (written : value.Written) (shape : literal value = .ok translated) :
    translated.Inert := by
  cases value with
  | bool value =>
      obtain rfl := Except.ok.inj shape
      cases value <;> exact ⟨by decide, by decide⟩
  | integer value =>
      obtain rfl := Except.ok.inj shape
      exact HolTerm.inert_numeral ⟨passes_decimal value, passes_decimal value⟩
        (HolType.inert_basic _ (by decide))
  | decimal digits =>
      obtain rfl := Except.ok.inj shape
      obtain ⟨nonempty, points⟩ := written
      refine HolTerm.inert_numeral
        (Text.inert_of_idle nonempty fun point member => ?_)
        (HolType.inert_basic _ (by decide))
      rcases points point member with digit | rfl
      · exact idle_of_isDigit digit
      · decide
  | bitVector value width =>
      obtain rfl := Except.ok.inj shape
      exact HolTerm.inert_numeral ⟨passes_decimal value, passes_decimal value⟩
        (HolType.inert_word _)
  | string contents =>
      change characters contents = .ok translated at shape
      unfold characters at shape
      split at shape
      · cases shape
      · obtain rfl := Except.ok.inj shape
        exact HolTerm.inert_characters _

theorem inert_identifier {identifier name : Text}
    (standsFor : Identifier.StandsFor identifier name) : identifier.Inert :=
  Text.inert_of_isWord (InnerSyntax.isWord_of_isVariable standsFor.isVariable)

theorem inert_closed :
    TranslationClosed Fixity.Inert HolType.Inert HolTerm.Inert where
  toCompositional := inert_compositional
  name _ _ standsFor := inert_identifier standsFor
  literal _ _ written shape := inert_literal written shape
  letIn _ _ identifiers values body :=
    HolTerm.inert_letIn (fun equation member =>
      let ⟨_, standsFor⟩ := identifiers equation member
      inert_identifier standsFor) values body
  bound _ _ _ identifiers types body :=
    HolTerm.inert_bound (fun entry member =>
      let ⟨_, standsFor⟩ := identifiers entry member
      inert_identifier standsFor) types body

/-- Whatever the scope is that translates it, the translation of the term is
inert. -/
def TranslatesInertly (symbols : SymbolTable) (userSorts : List Text)
    (source : Term) : Prop :=
  ∀ (holScope : HolScope) (scope : Scope) (sort : SmtSort)
    (translated : HolTerm),
    holScope.Faithful → source.HasSort symbols Literal.Written scope sort →
    term ⟨.default, userSorts⟩ holScope source = .ok translated →
    translated.Inert

/-- The scanner passes all translations of terms with literals as texts write
them. -/
theorem translatesInertly (source : Term) :
    TranslatesInertly symbols userSorts source :=
  fun holScope scope sort translated faithful typed shape =>
    alwaysTranslates inert_closed source holScope scope sort translated
      faithful typed (fun operator _ => writes_default operator) shape

theorem inert_definitionValue {definition : Definition} {holScope : HolScope}
    {value : HolTerm} (settled : definition.Settled symbols)
    (faithful : holScope.Faithful)
    (shape : definitionValue ⟨.default, userSorts⟩ holScope definition =
      .ok value) :
    value.Inert :=
  holds_definitionValue inert_closed settled faithful
    (fun operator _ => writes_default operator) shape

end Translation

end ModelAudit
