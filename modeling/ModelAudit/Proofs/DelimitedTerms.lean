import ModelAudit.Proofs.Brackets
import ModelAudit.Proofs.InertTranslation
import ModelAudit.Proofs.PlacedTerms
import ModelAudit.Proofs.TermTexts
import ModelAudit.Proofs.TokenPlaces

/-!
# Translations are delimited

Every translated term is written as one word or between two parentheses that are
partners, and all brackets in it have partners.
-/

namespace ModelAudit

open Text InnerSyntax

/-! ## Words -/

namespace InnerSyntax

theorem not_mem_brackets_of_isWordPart {point : CodePoint}
    (part : isWordPart point = true) :
    point ∉ brackets :=
  Glance.not_mem_of_test (by decide) part

theorem not_mem_brackets_of_isWord {word : Text} (shape : isWord word = true) :
    ∀ point ∈ word, point ∉ brackets := by
  cases word with
  | nil => cases shape
  | cons first rest =>
      obtain ⟨letter, parts⟩ := isWord_cons.mp shape
      refine List.forall_mem_cons.mpr
        ⟨Glance.not_mem_of_test (by decide) letter, ?_⟩
      exact fun point member =>
        not_mem_brackets_of_isWordPart (parts point member)

theorem nested_of_isWord {word : Text} (shape : isWord word = true) :
    Nested word :=
  nested_of_plain (not_mem_brackets_of_isWord shape)

end InnerSyntax

namespace Text

variable {text inside separator : Text} {parts : List Text}

theorem IsDelimited.nested (delimited : IsDelimited text) : Nested text := by
  rcases delimited with word | ⟨inside, nested, rfl⟩
  · exact nested_of_isWord word
  · exact (isGroup_parens nested).nested

theorem nested_decimal (number : Nat) : Nested (decimal number) :=
  nested_of_plain fun _ member =>
    Glance.not_mem_of_test (by decide) (isDigit_of_mem_decimal member)

theorem nested_join (separates : Nested separator)
    (nested : ∀ part ∈ parts, Nested part) :
    Nested (join separator parts) := by
  induction parts with
  | nil => exact .nil
  | cons part parts inductionHypothesis =>
      obtain ⟨here, later⟩ := List.forall_mem_cons.mp nested
      cases parts with
      | nil =>
          rw [join, List.intercalate_singleton]
          exact here
      | cons next parts =>
          rw [join, List.intercalate_cons_cons]
          exact (here.append separates).append (inductionHypothesis later)

end Text

/-! ## Types -/

namespace HolType

variable {userSorts : List Text} {sort : SmtSort} {type : HolType}

theorem nested_word (width : Int) : Nested (word width).text := by
  have constructor : Nested " word" := nested_of_plain (by decide)
  refine Nested.append ?_ constructor
  cases width with
  | ofNat number => exact nested_decimal number
  | negSucc number => exact .point (by decide) (nested_decimal _)

theorem nested_typeVariable (name : Text) :
    Nested (named (Identifier.typeVariable name)).text := by
  have prime : Nested "'" := nested_of_plain (by decide)
  exact prime.append (nested_of_isWord (Identifier.isWord_escape name))

theorem nested_basic :
    ∀ type ∈ [bool, int, real, string], Nested type.text := by
  have plain : ∀ type ∈ [bool, int, real, string], ∀ point ∈ type.text,
      point ∉ brackets := by
    decide
  exact fun type member => nested_of_plain (plain type member)

/-- The text of a type opens and closes its brackets in pairs. -/
theorem nested_of_toHol (translated : sort.toHol userSorts = .ok type) :
    Nested type.text := by
  induction type generalizing sort with
  | named name =>
      rcases madeOfSorts_of_toHol translated with basic | ⟨sortName, rfl⟩
      · exact nested_basic _ basic
      · exact nested_typeVariable sortName
  | word width => exact nested_word width
  | function argument result argumentHypothesis resultHypothesis =>
      obtain ⟨⟨_, argumentType⟩, ⟨_, resultType⟩⟩ :=
        madeOfSorts_of_toHol translated
      have arrow : Nested " \\<Rightarrow> " := nested_of_plain (by decide)
      have inside := ((argumentHypothesis argumentType).append arrow).append
        (resultHypothesis resultType)
      simpa only [text, List.append_assoc] using (isGroup_parens inside).nested

end HolType

/-! ## Terms -/

namespace HolTerm

/-- A number that a template takes from an index. -/
def IsIndex (term : HolTerm) : Prop :=
  ∃ number, term = .constant (Text.decimal number)

/-- The text of the term is delimited, unless the term is an index. -/
def IsDelimited (term : HolTerm) : Prop :=
  Text.IsDelimited term.text ∨ term.IsIndex

variable {function argument value test first second left right body : HolTerm}
  {arguments parts : List HolTerm} {type : HolType} {digits symbol : Text}

theorem IsDelimited.nested {term : HolTerm} (delimited : term.IsDelimited) :
    Nested term.text := by
  rcases delimited with delimited | ⟨number, rfl⟩
  · exact delimited.nested
  · exact nested_decimal number

theorem isDelimited_of_isWord {term : HolTerm}
    (word : isWord term.text = true) :
    term.IsDelimited :=
  .inl (.inl word)

theorem isDelimited_of_nested {term : HolTerm} {inside : Text}
    (nested : Nested inside) (shape : term.text = "(" ++ inside ++ ")") :
    term.IsDelimited :=
  .inl (.inr ⟨inside, nested, shape⟩)

theorem nested_argumentsText
    (delimited : ∀ argument ∈ arguments, argument.IsDelimited) :
    Nested (argumentsText arguments) := by
  have blank : Nested " " := nested_of_plain (by decide)
  induction arguments with
  | nil => exact .nil
  | cons argument arguments inductionHypothesis =>
      obtain ⟨here, later⟩ := List.forall_mem_cons.mp delimited
      rw [argumentsText]
      exact (blank.append here.nested).append (inductionHypothesis later)

theorem isDelimited_numeral (digitsNested : Nested digits)
    (typeNested : Nested type.text) :
    (numeral digits type).IsDelimited := by
  have colons : Nested "::" := nested_of_plain (by decide)
  exact isDelimited_of_nested
    ((digitsNested.append colons).append typeNested) rfl

theorem isDelimited_apply (functionNested : Nested function.text)
    (argumentsDelimited : ∀ argument ∈ arguments, argument.IsDelimited) :
    (apply function arguments).IsDelimited :=
  isDelimited_of_nested
    (functionNested.append (nested_argumentsText argumentsDelimited))
    rfl

theorem isDelimited_operation (symbolNested : Nested symbol)
    (leftDelimited : left.IsDelimited) (rightDelimited : right.IsDelimited) :
    (operation symbol left right).IsDelimited := by
  have blank : Nested " " := nested_of_plain (by decide)
  exact isDelimited_of_nested
    ((((leftDelimited.nested.append blank).append symbolNested).append
    blank).append rightDelimited.nested) rfl

theorem isDelimited_conjunction (delimited : ∀ part ∈ parts, part.IsDelimited) :
    (conjunction parts).IsDelimited := by
  have mark : Nested " \\<and> " := nested_of_plain (by decide)
  refine isDelimited_of_nested (nested_join mark ?_)
    (by rw [text, conjunctsText_eq_join])
  exact List.forall_mem_map.mpr fun part member =>
    (delimited part member).nested

theorem isDelimited_conditional (testDelimited : test.IsDelimited)
    (firstDelimited : first.IsDelimited)
    (secondDelimited : second.IsDelimited) :
    (conditional test first second).IsDelimited := by
  have lead : Nested "if " := nested_of_plain (by decide)
  have thenMark : Nested " then " := nested_of_plain (by decide)
  have elseMark : Nested " else " := nested_of_plain (by decide)
  exact isDelimited_of_nested
    (((((lead.append testDelimited.nested).append thenMark).append
    firstDelimited.nested).append elseMark).append secondDelimited.nested) rfl

theorem isDelimited_update (functionDelimited : function.IsDelimited)
    (argumentDelimited : argument.IsDelimited)
    (valueDelimited : value.IsDelimited) :
    (update function argument value).IsDelimited := by
  have mark : Nested " := " := nested_of_plain (by decide)
  have changed := isGroup_parens ((argumentDelimited.nested.append mark).append
    valueDelimited.nested)
  refine isDelimited_of_nested
    (functionDelimited.nested.append changed.nested) ?_
  simp only [text, List.append_assoc]
  rfl

theorem isDelimited_constantFunction (typeNested : Nested type.text)
    (valueDelimited : value.IsDelimited) :
    (constantFunction type value).IsDelimited := by
  have lead : Nested "\\<lambda>_::" := nested_of_plain (by decide)
  have stop : Nested ". " := nested_of_plain (by decide)
  exact isDelimited_of_nested (((lead.append typeNested).append stop).append
    valueDelimited.nested) rfl

theorem isDelimited_typed (symbolNested : Nested symbol)
    (argumentsDelimited : ∀ argument ∈ arguments, argument.IsDelimited)
    (typeNested : Nested type.text) :
    (typed symbol arguments type).IsDelimited := by
  have mark : Nested " :: " := nested_of_plain (by decide)
  exact isDelimited_of_nested (((symbolNested.append
    (nested_argumentsText argumentsDelimited)).append mark).append
      typeNested) rfl

theorem isDelimited_isIntegral (valueDelimited : value.IsDelimited) :
    (isIntegral value).IsDelimited := by
  have lead : Nested "of_int " := nested_of_plain (by decide)
  have floor : Nested "floor " := nested_of_plain (by decide)
  have equals : Nested " = " := nested_of_plain (by decide)
  have rounded := isGroup_parens (floor.append valueDelimited.nested)
  refine isDelimited_of_nested
    (((lead.append rounded.nested).append equals).append
    valueDelimited.nested) ?_
  simp only [text, List.append_assoc]
  rfl

theorem isDelimited_characters (codes : List Nat) :
    (characters codes).IsDelimited := by
  have separator : Nested ", " := nested_of_plain (by decide)
  have stated : Nested "::string" := nested_of_plain (by decide)
  have listed : Nested (Text.join ", " (codes.map characterText)) := by
    refine nested_join separator (List.forall_mem_map.mpr fun code _ => ?_)
    have mark : Nested "CHR 0x" := nested_of_plain (by decide)
    refine mark.append (nested_of_plain fun point member => ?_)
    exact Glance.not_mem_of_test (by decide)
      (Text.isHexDigit_of_mem_upperHexadecimal member)
  refine isDelimited_of_nested ((isGroup_square listed).nested.append stated) ?_
  simp only [text, List.append_assoc]
  rfl

theorem isDelimited_letIn {equations : List (Text × HolTerm)}
    (identifiers : ∀ equation ∈ equations, isWord equation.fst = true)
    (values : ∀ equation ∈ equations, equation.snd.IsDelimited)
    (bodyDelimited : body.IsDelimited) :
    (letIn equations body).IsDelimited := by
  have lead : Nested "let " := nested_of_plain (by decide)
  have equals : Nested " = " := nested_of_plain (by decide)
  have separator : Nested "; " := nested_of_plain (by decide)
  have mark : Nested " in " := nested_of_plain (by decide)
  have listed : Nested (equationsText equations) := by
    rw [equationsText_eq_join]
    refine nested_join separator
      (List.forall_mem_map.mpr fun equation member => ?_)
    exact ((nested_of_isWord (identifiers equation member)).append
      equals).append (values equation member).nested
  exact isDelimited_of_nested
    (((lead.append listed).append mark).append bodyDelimited.nested) rfl

theorem isDelimited_bound {binder : HolBinder} {names : List (Text × HolType)}
    (identifiers : ∀ entry ∈ names, isWord entry.fst = true)
    (types : ∀ entry ∈ names, Nested entry.snd.text)
    (bodyDelimited : body.IsDelimited) :
    (bound binder names body).IsDelimited := by
  have symbolNested : Nested binder.symbol := by
    cases binder <;> exact nested_of_plain (by decide)
  have blank : Nested " " := nested_of_plain (by decide)
  have colons : Nested "::" := nested_of_plain (by decide)
  have stop : Nested ". " := nested_of_plain (by decide)
  have entries : Nested (Text.words (names.map variableText)) := by
    refine nested_join blank (List.forall_mem_map.mpr fun entry member => ?_)
    have inside :=
      ((nested_of_isWord (identifiers entry member)).append colons).append
        (types entry member)
    simpa only [variableText, List.append_assoc]
      using (isGroup_parens inside).nested
  exact isDelimited_of_nested
    (((symbolNested.append entries).append stop).append
    bodyDelimited.nested) rfl

end HolTerm

/-! ## Spellings -/

/-- An infix operator or a function without brackets. -/
def Fixity.Plain : Fixity → Prop
  | infixed symbol | prefixed symbol => ∀ point ∈ symbol, point ∉ brackets
  | _ => False

instance (fixity : Fixity) : Decidable fixity.Plain :=
  match fixity with
  | .infixed symbol | .prefixed symbol =>
    inferInstanceAs (Decidable (∀ point ∈ symbol, point ∉ brackets))
  | .templated _ | .sectioned _ => inferInstanceAs (Decidable False)

theorem Fixity.Plain.known {fixity : Fixity} (plain : fixity.Plain) :
    fixity.Known Plain := by
  cases fixity with
  | infixed symbol => exact plain
  | prefixed function => exact plain
  | templated template => exact plain.elim
  | sectioned symbol => exact plain.elim

theorem Operator.plain_defaultSpelling {operator : Operator}
    {spelling : Spelling} (known : operator.defaultSpelling? = some spelling)
    (noTemplate : ∀ template, spelling.fixity ≠ .templated template) :
    spelling.fixity.Plain := by
  cases operator <;> cases known <;>
    first | decide | exact absurd rfl (noTemplate _)

open HolTerm in
/-- What plain operators make of delimited terms is delimited. -/
theorem delimited_compositional :
    Compositional Fixity.Plain
      (fun type => Nested type.text) HolTerm.IsDelimited where
  truth := isDelimited_of_isWord (by decide)
  call _ _ known each := isDelimited_apply (nested_of_plain known) each
  applySection _ _ known _ := known.elim
  operation _ _ _ known left right :=
    isDelimited_operation (nested_of_plain known) left right
  conjunction _ _ each := isDelimited_conjunction each
  functions := by decide
  index number := .inr ⟨number, rfl⟩
  ofSort _ _ _ translated := HolType.nested_of_toHol translated
  apply _ _ function each := isDelimited_apply function.nested each
  conditional _ _ _ test first second :=
    isDelimited_conditional test first second
  update _ _ _ function argument value :=
    isDelimited_update function argument value
  constantFunction _ _ type value := isDelimited_constantFunction type value
  typed _ _ _ known each type :=
    isDelimited_typed (nested_of_plain known) each type
  isIntegral _ number := isDelimited_isIntegral number

/-! ## Translations -/

namespace Translation

theorem writesPlainly_default {userSorts : List Text} (operator : Operator) :
    Vocabulary.Writes ⟨.default, userSorts⟩ Fixity.Plain operator :=
  Vocabulary.writes_of_defaultSpelling fun known noTemplate =>
    (Operator.plain_defaultSpelling known noTemplate).known

/-- The text of a literal is one word or stands between parentheses. -/
theorem isDelimited_literal {value : Literal} {translated : HolTerm}
    (written : value.Written) (shape : literal value = .ok translated) :
    translated.IsDelimited := by
  cases value with
  | bool value =>
      obtain rfl := Except.ok.inj shape
      cases value <;> exact HolTerm.isDelimited_of_isWord (by decide)
  | integer value =>
      obtain rfl := Except.ok.inj shape
      exact HolTerm.isDelimited_numeral (nested_decimal value)
        (HolType.nested_basic _ (by decide))
  | decimal digits =>
      obtain rfl := Except.ok.inj shape
      refine HolTerm.isDelimited_numeral
        (nested_of_plain fun point member => ?_)
        (HolType.nested_basic _ (by decide))
      rcases written.2 point member with digit | rfl
      · exact Glance.not_mem_of_test (by decide) digit
      · decide
  | bitVector value width =>
      obtain rfl := Except.ok.inj shape
      exact HolTerm.isDelimited_numeral (nested_decimal value)
        (HolType.nested_word _)
  | string contents =>
      change characters contents = .ok translated at shape
      unfold characters at shape
      split at shape
      · cases shape
      · obtain rfl := Except.ok.inj shape
        exact HolTerm.isDelimited_characters _

theorem delimited_closed :
    TranslationClosed Fixity.Plain
      (fun type => Nested type.text) HolTerm.IsDelimited where
  toCompositional := delimited_compositional
  name _ _ standsFor := .inl (.inl (isWord_of_isVariable standsFor.isVariable))
  literal _ _ written shape := isDelimited_literal written shape
  letIn _ _ identifiers values body :=
    HolTerm.isDelimited_letIn (fun equation member =>
      let ⟨_, standsFor⟩ := identifiers equation member
      isWord_of_isVariable standsFor.isVariable) values body
  bound _ _ _ identifiers types body :=
    HolTerm.isDelimited_bound (fun entry member =>
      let ⟨_, standsFor⟩ := identifiers entry member
      isWord_of_isVariable standsFor.isVariable) types body

/-! ## Indices stand inside translations only -/

section Indices

variable {arguments : List HolTerm} {first : HolTerm} {others : List HolTerm}
  {translated : HolTerm}

theorem not_isIndex_truth (value : Bool) : ¬(HolTerm.truth value).IsIndex := by
  rintro ⟨number, same⟩
  have letters : isNumeral (if value then "True" else "False") = false := by
    cases value <;> decide
  rw [HolTerm.constant.inj same, isNumeral_decimal] at letters
  cases letters

theorem not_isIndex_conjoin {parts : List HolTerm}
    (each : ∀ part ∈ parts, ¬part.IsIndex) :
    ¬(HolTerm.conjoin parts).IsIndex := by
  match parts with
  | [] => exact not_isIndex_truth true
  | [part] => exact each part (List.mem_singleton_self part)
  | first :: second :: others => nofun

theorem not_isIndex_binary (fixity : Fixity) (left right : HolTerm) :
    ¬(binary fixity left right).IsIndex := by
  cases fixity <;> nofun

theorem not_isIndex_unary (spelling : Spelling) (each : ¬first.IsIndex) :
    ¬(unary spelling first).IsIndex := by
  unfold unary
  split
  · exact each
  all_goals nofun

theorem not_isIndex_foldRight (fixity : Fixity) (each : ¬first.IsIndex) :
    ¬(foldRight fixity first others).IsIndex := by
  cases others with
  | nil => exact each
  | cons second others => exact not_isIndex_binary _ _ _

theorem not_isIndex_foldl (fixity : Fixity) (each : ¬first.IsIndex) :
    ¬(others.foldl (binary fixity) first).IsIndex := by
  induction others generalizing first with
  | nil => exact each
  | cons second others inductionHypothesis =>
      exact inductionHypothesis (not_isIndex_binary _ _ _)

theorem not_isIndex_several (spelling : Spelling) (each : ¬first.IsIndex) :
    ¬(several spelling first others).IsIndex := by
  have holdsOf {couples : List (HolTerm × HolTerm)} {image : HolTerm × HolTerm →
      HolTerm}
      (same : ∀ couple,
        image couple = binary spelling.fixity couple.fst couple.snd) :
      ¬(HolTerm.conjoin (couples.map image)).IsIndex :=
    not_isIndex_conjoin (List.forall_mem_map.mpr fun couple _ =>
      same couple ▸ not_isIndex_binary _ _ _)
  unfold several
  dsimp only
  split
  · exact holdsOf fun _ => rfl
  split
  · exact holdsOf fun _ => rfl
  split
  · exact not_isIndex_foldRight _ each
  · nofun
  · nofun
  · exact not_isIndex_foldl _ each

theorem not_isIndex_fill? {template : Template} {fields : TemplateFields}
    (each : ∀ argument ∈ fields.arguments, ¬argument.IsIndex)
    (filled : template.fill? fields = some translated) :
    ¬translated.IsIndex := by
  unfold Template.fill? at filled
  split at filled
  case h_5 =>
    split at filled
    · obtain rfl := Option.some.inj filled
      nofun
    · cases filled
  case h_10 =>
    obtain ⟨_, _, rfl⟩ := Option.map_eq_some_iff.mp filled
    nofun
  case h_11 only others arguments =>
    obtain rfl := Option.some.inj filled
    exact each only (arguments ▸ List.mem_cons_self)
  case h_13 => cases filled
  all_goals
    obtain rfl := Option.some.inj filled
    nofun

theorem not_isIndex_plain? {spelling : Spelling}
    (each : ∀ argument ∈ arguments, ¬argument.IsIndex)
    (shape : plain? spelling arguments = some translated) :
    ¬translated.IsIndex := by
  match arguments with
  | [] => cases shape
  | [only] =>
      rw [plain?] at shape
      split at shape
      · obtain rfl := Option.some.inj shape
        exact not_isIndex_unary spelling
          (each only (List.mem_singleton_self only))
      · exact not_isIndex_fill? each shape
  | first :: second :: others =>
      obtain rfl := Option.some.inj shape
      exact not_isIndex_several spelling (each first List.mem_cons_self)

/-- The application of an operator is no index, unless an argument is one. -/
theorem not_isIndex_spell {vocabulary : Vocabulary} {operator : Operator}
    {indices : List Nat} {sort : SmtSort}
    (each : ∀ argument ∈ arguments, ¬argument.IsIndex)
    (shape : spell vocabulary operator indices arguments sort =
      .ok translated) :
    ¬translated.IsIndex := by
  unfold spell at shape
  split at shape
  · cases shape
  split at shape
  · obtain ⟨type, _, shape⟩ := Outcome.bind_eq_ok.mp shape
    obtain ⟨indexType, _, shape⟩ := Outcome.bind_eq_ok.mp shape
    exact not_isIndex_fill? each (eq_some_of_spelled shape)
  · exact not_isIndex_plain? each (eq_some_of_spelled shape)

theorem not_isIndex_literal {value : Literal}
    (shape : literal value = .ok translated) :
    ¬translated.IsIndex := by
  cases value with
  | bool value =>
      obtain rfl := Except.ok.inj shape
      exact not_isIndex_truth value
  | string contents =>
      change characters contents = .ok translated at shape
      unfold characters at shape
      split at shape
      · cases shape
      · obtain rfl := Except.ok.inj shape
        nofun
  | integer _ | decimal _ | bitVector _ _ =>
      obtain rfl := Except.ok.inj shape
      nofun

end Indices

/-- No translation is a bare index; those stand in the templates only. -/
theorem not_isIndex_term {vocabulary : Vocabulary} (source : Term) :
    ∀ (scope : HolScope) (translated : HolTerm),
      term vocabulary scope source = .ok translated → ¬translated.IsIndex := by
  induction source using Term.induction with
  | literal value => exact fun _ _ shape => not_isIndex_literal shape
  | symbol name sort =>
      intro scope translated shape
      obtain rfl := Except.ok.inj shape
      nofun
  | functionArray function index element =>
      intro scope translated shape
      have name : ¬(HolTerm.name (scope.identifier function)).IsIndex := nofun
      exact not_isIndex_spell (List.forall_mem_singleton.mpr name) shape
  | application head indices arguments sort argumentsHold =>
      intro scope translated shape
      obtain ⟨results, resultsShape, shape⟩ := Outcome.bind_eq_ok.mp shape
      cases head with
      | operator operator =>
          refine not_isIndex_spell
            (Outcome.forall_mem_of_forall₂ (terms_eq_ok.mp resultsShape) ?_)
            shape
          exact fun argument member result computed =>
            argumentsHold argument member scope result computed
      | function name =>
          obtain rfl := Except.ok.inj shape
          nofun
  | letIn bindings body _ _ =>
      intro scope translated shape
      obtain ⟨_, _, shape⟩ := Outcome.bind_eq_ok.mp shape
      obtain ⟨_, _, shape⟩ := Outcome.bind_eq_ok.mp shape
      obtain rfl := Except.ok.inj shape
      nofun
  | quantified quantifier binders body _ =>
      intro scope translated shape
      obtain ⟨_, _, shape⟩ := Outcome.bind_eq_ok.mp shape
      obtain ⟨_, _, shape⟩ := Outcome.bind_eq_ok.mp shape
      obtain rfl := Except.ok.inj shape
      nofun
  | annotated inner attributes innerHolds => exact innerHolds

/-- Take any expression of a text that is read as a term, and any scope that
arises inside binders. If the term is translated with the default spellings,
then the translation is written as one word or between two parentheses that are
partners, and all its brackets have partners. No text around it changes these
partners, and in every term that it is a part of, delimiters stand around it. -/
theorem translation_isDelimited {text : Text} {expressions : List SExpr}
    {whole expression : SExpr} {symbols final : SymbolTable} {scope : Scope}
    {source : Term}
    {userSorts : List Text} {holScope : HolScope} {entries : List (Text × Text)}
    {translated : HolTerm} (readText : readExpressions text = .ok expressions)
    (among : whole ∈ expressions) (within : expression.PartOf whole)
    (reached : SymbolTable.empty.Grows symbols)
    (read : readTerm symbols scope expression = .ok source)
    (entered : HolScope.Entered final holScope entries)
    (shape : term ⟨.default, userSorts⟩ holScope source = .ok translated) :
    Text.IsDelimited translated.text ∧ Nested translated.text ∧
      KeepsApart translated.text ∧
      ∀ context : HolTerm, translated.PartOf context →
        PlacedIn translated.text context.text := by
  have spelled : expression.Everywhere Atom.Spelled :=
    within.everywhere
      (everywhere_spelled_of_readExpressions readText whole among)
  have aliases := (reached.wellFormed SymbolTable.wellFormed_empty).aliases
  have delimited : translated.IsDelimited :=
    alwaysTranslates delimited_closed source holScope scope _ translated
      entered.faithful (hasSort_of_readTerm aliases spelled read)
      (fun operator _ => writesPlainly_default operator)
      shape
  have nested := delimited.nested
  exact ⟨delimited.resolve_right
    (not_isIndex_term source holScope translated shape), nested,
    nested.keepsApart, fun _ inside => inside.placedIn⟩

/-- `(let ((|a)| 1)) (- |a)|))`. -/
def bracketedName : SExpr :=
  let symbol (name : Text) (quoted : Bool) (offset : Nat) : SExpr :=
    .atom (.symbol name quoted) ⟨1, offset + 1, offset⟩
  let list (items : List SExpr) (offset : Nat) : SExpr :=
    .list items ⟨1, offset + 1, offset⟩
  list [symbol "let" false 1,
    list [list [symbol "a)" true 7, .atom (.numeral "1") ⟨1, 13, 12⟩] 6] 5,
    list [symbol "-" false 17, symbol "a)" true 19] 16] 0

/-- The parenthesis in the name is not one of the translation's brackets. -/
theorem bracketedName_isDelimited :
    ∃ source translated,
      readExpressions "(let ((|a)| 1)) (- |a)|))" = .ok [bracketedName] ∧
      readTerm .empty [] bracketedName = .ok source ∧
      term ⟨.default, []⟩ (rootScope .empty) source = .ok translated ∧
      translated.text = "(let v_a_0029 = (1::int) in (- v_a_0029))" ∧
      Text.IsDelimited translated.text ∧ Nested translated.text ∧
      KeepsApart translated.text ∧
      ∀ context : HolTerm, translated.PartOf context →
        PlacedIn translated.text context.text := by
  have readText :
      readExpressions "(let ((|a)| 1)) (- |a)|))" = .ok [bracketedName] := by
    with_unfolding_all rfl
  have read : readTerm .empty [] bracketedName =
      .ok (.letIn [("a)", .literal (.integer 1))]
      (.application (.operator .subtraction) [] [.symbol "a)" .int] .int)) :=
    Outcome.toOption_eq_some_iff.mp (by decide +kernel)
  have shape :
      term ⟨.default, []⟩ (rootScope .empty)
        (.letIn [("a)", .literal (.integer 1))]
      (.application (.operator .subtraction) [] [.symbol "a)" .int] .int)) =
      .ok (.letIn [("v_a_0029", .numeral "1" .int)]
        (.call "-" [.name "v_a_0029"])) :=
    rfl
  exact ⟨_, _, readText, read, shape, by decide +kernel,
    translation_isDelimited readText (List.mem_singleton_self _) .whole .refl
      read .root shape⟩

end Translation

end ModelAudit
