import ModelAudit.Proofs.HelperWords
import ModelAudit.Proofs.InertTranslation

/-!
# Words of helpers in translations

The identifiers, types, numbers and characters of a translated term have no
words that begin as the constants of helpers do. So its text has only those of
its operators' spellings.
-/

namespace ModelAudit

open Text

variable {allowed : Text → Prop}

/-! ## Identifiers and types -/

namespace Identifier

/-- No escaped name begins as the constants of helpers do. -/
theorem not_mark_of_escape (name : Text) : ¬Helper.mark <+: escape name := by
  rintro ⟨rest, shape⟩
  have unprimed := prime_not_mem_escape name
  rw [← shape] at unprimed
  have underscored :
      Helper.mark.any (fun point => !isAlphanumeric point) = true := by decide
  have start : ((Helper.mark ++ rest).take 2 != ("v_" : Text)) = true := by
    rw [List.take_append_of_le_length (by decide)]
    decide
  have foreign : isForeign (escape name) = true := by
    rw [← shape, isForeign, List.any_append, underscored, start]
    simpa using unprimed
  rw [StandsFor.not_isForeign (.inl rfl)] at foreign
  cases foreign

theorem StandsFor.not_mark {identifier name : Text}
    (standsFor : StandsFor identifier name) :
    ¬Helper.mark <+: identifier := by
  rintro ⟨rest, rfl⟩
  have unprimed : ∀ point ∈ Helper.mark, decide (point ≠ prime) = true := by
    decide
  have stems : stem (Helper.mark ++ rest) = Helper.mark ++ stem rest :=
    List.takeWhile_append_of_pos unprimed
  exact not_mark_of_escape name ⟨stem rest, by rw [← stems, standsFor.stem_eq]⟩

end Identifier

theorem Text.usesOnly_of_word {word : Text}
    (parts : ∀ point ∈ word, InnerSyntax.isWordPart point = true)
    (noMark : ¬Helper.mark <+: word) : word.UsesOnly allowed := by
  intro run member start
  obtain rfl := runs_of_forall_isWordPart parts run member
  exact absurd start noMark

theorem InnerSyntax.isWordPart_of_mem {word : Text}
    (shape : isWord word = true) :
    ∀ point ∈ word, isWordPart point = true := by
  cases word with
  | nil => cases shape
  | cons first rest =>
      obtain ⟨letter, parts⟩ := isWord_cons.mp shape
      exact List.forall_mem_cons.mpr
        ⟨by simp [isWordPart, Identifier.isAlphanumeric, letter], parts⟩

theorem Identifier.StandsFor.usesOnly {identifier name : Text}
    (standsFor : StandsFor identifier name) : identifier.UsesOnly allowed := by
  have word := standsFor.isVariable
  rw [InnerSyntax.isVariable, Bool.and_eq_true] at word
  exact usesOnly_of_word
    (InnerSyntax.isWordPart_of_mem word.1) standsFor.not_mark

theorem Text.usesOnly_decimal (number : Nat) :
    (decimal number).UsesOnly allowed :=
  .of_no_underscore fun member =>
    absurd (InnerSyntax.isDigit_of_mem_decimal member) (by decide)

theorem Text.usesOnly_integer (number : Int) :
    (integer number).UsesOnly allowed := by
  cases number with
  | ofNat number => exact usesOnly_decimal number
  | negSucc number =>
      refine .of_no_underscore fun member => ?_
      rcases List.mem_cons.mp member with same | inside
      · exact absurd same (by decide)
      · exact absurd (InnerSyntax.isDigit_of_mem_decimal inside) (by decide)

namespace HolType

def UsesOnly (allowed : Text → Prop) (type : HolType) : Prop :=
  type.text.UsesOnly allowed

theorem usesOnly_typeVariable (name : Text) :
    (named (Identifier.typeVariable name)).UsesOnly allowed := by
  have mark : ("'" : Text) = [Identifier.prime] := by decide +kernel
  rw [UsesOnly, text, Identifier.typeVariable, mark, List.singleton_append]
  refine usesOnly_of_word (List.forall_mem_cons.mpr ⟨by decide, ?_⟩) ?_
  · exact InnerSyntax.isWordPart_of_mem (Identifier.isWord_escape name)
  · rintro ⟨rest, shape⟩
    have first : Helper.mark.head? = some ('s' : CodePoint) := by decide
    have same := congrArg List.head? shape
    rw [List.head?_append, first, Option.some_or, List.head?_cons,
      Option.some.injEq] at same
    exact absurd same (by decide)

theorem usesOnly_word (width : Int) : (word width).UsesOnly allowed := by
  have constructor : (" word" : Text).UsesOnly fun _ => False := by decide
  exact (usesOnly_integer width).append_of_first constructor.of_none (by decide)

theorem usesOnly_of_toHol {userSorts : List Text} {sort : SmtSort}
    {type : HolType} (translated : sort.toHol userSorts = .ok type) :
    type.UsesOnly allowed := by
  induction type generalizing sort with
  | named name =>
      rcases madeOfSorts_of_toHol translated with basic | ⟨sortName, rfl⟩
      · have plain :
            ∀ type ∈ [bool, int, real, string], type.text.UsesOnly fun _ =>
              False := by
          decide
        exact (plain _ basic).of_none
      · exact usesOnly_typeVariable sortName
  | word width => exact usesOnly_word width
  | function argument result argumentHypothesis resultHypothesis =>
      obtain ⟨⟨_, argumentType⟩, ⟨_, resultType⟩⟩ :=
        madeOfSorts_of_toHol translated
      have arrow : IsMark " \\<Rightarrow> " := by decide
      simpa only [UsesOnly, text, List.append_assoc] using
        (arrow.between (argumentHypothesis argumentType)
          (resultHypothesis resultType)).parens

end HolType

/-! ## Terms -/

namespace HolTerm

def UsesOnly (allowed : Text → Prop) (term : HolTerm) : Prop :=
  term.text.UsesOnly allowed

variable {function argument value test first second left right body : HolTerm}
  {arguments parts : List HolTerm} {type : HolType} {symbol : Text}

theorem usesOnly_argumentsText {before : Text}
    (beforeUses : before.UsesOnly allowed)
    (each : ∀ argument ∈ arguments, argument.UsesOnly allowed) :
    (before ++ argumentsText arguments).UsesOnly allowed := by
  have blank : IsMark " " := by decide
  induction arguments generalizing before with
  | nil =>
      rw [argumentsText, List.append_nil]
      exact beforeUses
  | cons argument arguments inductionHypothesis =>
      obtain ⟨here, later⟩ := List.forall_mem_cons.mp each
      rw [argumentsText, ← List.append_assoc, ← List.append_assoc]
      exact inductionHypothesis (blank.between beforeUses here) later

theorem usesOnly_apply (functionUses : function.UsesOnly allowed)
    (each : ∀ argument ∈ arguments, argument.UsesOnly allowed) :
    (apply function arguments).UsesOnly allowed := by
  simpa only [UsesOnly, text, List.append_assoc] using
    (usesOnly_argumentsText functionUses each).parens

theorem usesOnly_operation (symbolUses : symbol.UsesOnly allowed)
    (leftUses : left.UsesOnly allowed) (rightUses : right.UsesOnly allowed) :
    (operation symbol left right).UsesOnly allowed := by
  have blank : IsMark " " := by decide
  simpa only [UsesOnly, text, List.append_assoc] using
    (blank.between (blank.between leftUses symbolUses) rightUses).parens

theorem usesOnly_conjunctsText (each : ∀ part ∈ parts, part.UsesOnly allowed) :
    (conjunctsText parts).UsesOnly allowed := by
  have mark : IsMark " \\<and> " := by decide
  induction parts with
  | nil => exact .nil
  | cons part parts inductionHypothesis =>
      obtain ⟨here, later⟩ := List.forall_mem_cons.mp each
      cases parts with
      | nil =>
          rw [conjunctsText]
          exact here
      | cons next parts =>
          rw [conjunctsText]
          · exact mark.between here (inductionHypothesis later)
          · exact List.cons_ne_nil _ _

theorem usesOnly_conditional (testUses : test.UsesOnly allowed)
    (firstUses : first.UsesOnly allowed)
    (secondUses : second.UsesOnly allowed) :
    (conditional test first second).UsesOnly allowed := by
  have lead : IsMark "(if " := by decide
  have thenMark : IsMark " then " := by decide
  have elseMark : IsMark " else " := by decide
  have closing : IsMark ")" := by decide
  rw [UsesOnly, text]
  exact closing.after
    (elseMark.between (thenMark.between (lead.before testUses) firstUses)
      secondUses)

theorem usesOnly_update (functionUses : function.UsesOnly allowed)
    (argumentUses : argument.UsesOnly allowed)
    (valueUses : value.UsesOnly allowed) :
    (update function argument value).UsesOnly allowed := by
  have lead : IsMark "(" := by decide
  have mark : IsMark " := " := by decide
  have closing : IsMark "))" := by decide
  rw [UsesOnly, text]
  exact closing.after
    (mark.between (lead.between (lead.before functionUses) argumentUses)
      valueUses)

theorem usesOnly_constantFunction (typeUses : type.UsesOnly allowed)
    (valueUses : value.UsesOnly allowed) :
    (constantFunction type value).UsesOnly allowed := by
  have lead : IsMark "(\\<lambda>_::" := by decide
  have stop : IsMark ". " := by decide
  have closing : IsMark ")" := by decide
  rw [UsesOnly, text]
  exact closing.after (stop.between (lead.before typeUses) valueUses)

theorem usesOnly_typed (symbolUses : symbol.UsesOnly allowed)
    (each : ∀ argument ∈ arguments, argument.UsesOnly allowed)
    (typeUses : type.UsesOnly allowed) :
    (typed symbol arguments type).UsesOnly allowed := by
  have mark : IsMark " :: " := by decide
  simpa only [UsesOnly, text, List.append_assoc] using
    (mark.between (usesOnly_argumentsText symbolUses each) typeUses).parens

theorem usesOnly_isIntegral (valueUses : value.UsesOnly allowed) :
    (isIntegral value).UsesOnly allowed := by
  have lead : IsMark "(of_int (floor " := by decide
  have equals : IsMark ") = " := by decide
  have closing : IsMark ")" := by decide
  rw [UsesOnly, text]
  exact closing.after (equals.between (lead.before valueUses) valueUses)

theorem usesOnly_numeral {digits : Text} (digitsUse : digits.UsesOnly allowed)
    (typeUses : type.UsesOnly allowed) :
    (numeral digits type).UsesOnly allowed := by
  have colons : IsMark "::" := by decide
  simpa only [UsesOnly, text, List.append_assoc] using
    (colons.between digitsUse typeUses).parens

theorem usesOnly_characters (codes : List Nat) :
    (characters codes).UsesOnly allowed := by
  have lead : IsMark "([" := by decide
  have comma : IsMark ", " := by decide
  have closing : IsMark "]::string)" := by decide
  rw [UsesOnly, text]
  refine closing.after
    (lead.before (usesOnly_join comma (List.forall_mem_map.mpr ?_)))
  intro code _
  refine .of_no_underscore fun member => ?_
  rcases List.mem_append.mp member with constant | digits
  · exact absurd constant (by decide)
  · exact absurd (Text.isHexDigit_of_mem_upperHexadecimal digits) (by decide)

theorem usesOnly_equationsText {equations : List (Text × HolTerm)}
    (identifiers : ∀ equation ∈ equations, equation.fst.UsesOnly allowed)
    (values : ∀ equation ∈ equations, equation.snd.UsesOnly allowed) :
    (equationsText equations).UsesOnly allowed := by
  have equals : IsMark " = " := by decide
  have mark : IsMark "; " := by decide
  induction equations with
  | nil => exact .nil
  | cons equation equations inductionHypothesis =>
      obtain ⟨identifier, value⟩ := equation
      obtain ⟨identifierUses, laterIdentifiers⟩ :=
        List.forall_mem_cons.mp identifiers
      obtain ⟨valueUses, laterValues⟩ := List.forall_mem_cons.mp values
      have here := equals.between identifierUses valueUses
      cases equations with
      | nil =>
          rw [equationsText]
          exact here
      | cons next equations =>
          rw [equationsText]
          · exact mark.between here
              (inductionHypothesis laterIdentifiers laterValues)
          · exact List.cons_ne_nil _ _

theorem usesOnly_letIn {equations : List (Text × HolTerm)}
    (identifiers : ∀ equation ∈ equations, equation.fst.UsesOnly allowed)
    (values : ∀ equation ∈ equations, equation.snd.UsesOnly allowed)
    (bodyUses : body.UsesOnly allowed) :
    (letIn equations body).UsesOnly allowed := by
  have lead : IsMark "(let " := by decide
  have mark : IsMark " in " := by decide
  have closing : IsMark ")" := by decide
  rw [UsesOnly, text]
  exact closing.after
    (mark.between (lead.before (usesOnly_equationsText identifiers values))
      bodyUses)

theorem usesOnly_bound {binder : HolBinder} {names : List (Text × HolType)}
    (identifiers : ∀ entry ∈ names, entry.fst.UsesOnly allowed)
    (types : ∀ entry ∈ names, entry.snd.UsesOnly allowed)
    (bodyUses : body.UsesOnly allowed) :
    (bound binder names body).UsesOnly allowed := by
  have symbolMark : binder.symbol.IsMark := by cases binder <;> decide
  have blank : IsMark " " := by decide
  have stop : IsMark ". " := by decide
  have colons : IsMark "::" := by decide
  have entries : (Text.words (names.map variableText)).UsesOnly allowed := by
    refine usesOnly_join blank (List.forall_mem_map.mpr fun entry member => ?_)
    simpa only [variableText, List.append_assoc] using
      (colons.between (identifiers entry member) (types entry member)).parens
  simpa only [UsesOnly, text, List.append_assoc] using
    (stop.between (symbolMark.before entries) bodyUses).parens

end HolTerm

/-! ## Spellings -/

/-- What the operator or the function is spelled with. -/
def Fixity.UsesOnly (allowed : Text → Prop) : Fixity → Prop
  | infixed symbol | prefixed symbol | sectioned symbol =>
    symbol.UsesOnly allowed
  | templated _ => False

theorem Fixity.UsesOnly.known {fixity : Fixity}
    (uses : fixity.UsesOnly allowed) :
    fixity.Known (UsesOnly allowed) := by
  cases fixity with
  | infixed _ | prefixed _ => exact uses
  | templated _ => exact uses.elim
  | sectioned _ => exact ⟨uses, uses⟩

theorem Fixity.UsesOnly.mono {more : Text → Prop} {fixity : Fixity}
    (uses : fixity.UsesOnly allowed)
    (weaker : ∀ word, allowed word → more word) :
    fixity.UsesOnly more := by
  cases fixity with
  | infixed _ | prefixed _ | sectioned _ => exact Text.UsesOnly.mono uses weaker
  | templated _ => exact uses

/-- Operators are spelled with the constants of their helpers only. -/
theorem Operator.usesOnly_defaultSpelling {operator : Operator}
    {spelling : Spelling} (known : operator.defaultSpelling? = some spelling)
    (noTemplate : ∀ template, spelling.fixity ≠ .templated template) :
    spelling.fixity.UsesOnly fun word =>
      ∃ helper ∈ spelling.helpers, word = helper.name := by
  cases operator <;> cases known <;>
    first
      | exact absurd rfl (noTemplate _)
      | simp only [Fixity.UsesOnly, Spelling.infixed, Spelling.chained,
          Spelling.prefixed, Spelling.helped]; decide

open HolTerm in
/-- A term mentions what its parts and the spellings of its operators
mention. -/
theorem usesOnly_compositional (allowed : Text → Prop) :
    Compositional (Fixity.UsesOnly allowed) (HolType.UsesOnly allowed)
      (HolTerm.UsesOnly allowed) where
  truth := by
    have plain : (HolTerm.truth true).text.UsesOnly fun _ => False := by decide
    exact plain.of_none
  call _ _ known each := usesOnly_apply known each
  applySection _ _ known each := usesOnly_apply known.parens each
  operation _ _ _ known left right := usesOnly_operation known left right
  conjunction _ _ each := by
    simpa only [HolTerm.UsesOnly, HolTerm.text, List.append_assoc] using
      (usesOnly_conjunctsText each).parens
  functions function listed := by
    have plain : ∀ function ∈ Template.functions, function.UsesOnly fun _ =>
      False := by decide
    exact (plain function listed).of_none
  index number := usesOnly_decimal number
  ofSort _ _ _ translated := HolType.usesOnly_of_toHol translated
  apply _ _ function each := usesOnly_apply function each
  conditional _ _ _ test first second := usesOnly_conditional test first second
  update _ _ _ function argument value :=
    usesOnly_update function argument value
  constantFunction _ _ type value := usesOnly_constantFunction type value
  typed _ _ _ known each type := usesOnly_typed known each type
  isIntegral _ number := usesOnly_isIntegral number

/-- Literals mention no constants of helpers. -/
theorem usesOnly_literal {value : Literal} {translated : HolTerm}
    (written : value.Written)
    (shape : Translation.literal value = .ok translated) :
    translated.UsesOnly allowed := by
  have basic {type : HolType} (member : type ∈ [HolType.int, HolType.real]) :
      type.UsesOnly allowed := by
    have plain :
        ∀ type ∈ [HolType.int, HolType.real], type.text.UsesOnly fun _ =>
          False := by
      decide
    exact (plain type member).of_none
  cases value with
  | bool value =>
      obtain rfl := Except.ok.inj shape
      have plain : ∀ value, (HolTerm.truth value).text.UsesOnly fun _ =>
        False := by decide
      exact (plain value).of_none
  | integer value =>
      obtain rfl := Except.ok.inj shape
      exact HolTerm.usesOnly_numeral (usesOnly_decimal value)
        (basic (by decide))
  | decimal digits =>
      obtain rfl := Except.ok.inj shape
      refine HolTerm.usesOnly_numeral (.of_no_underscore fun member => ?_)
        (basic (by decide))
      rcases written.2 _ member with digit | same
      · exact absurd digit (by decide)
      · exact absurd same (by decide)
  | bitVector value width =>
      obtain rfl := Except.ok.inj shape
      exact HolTerm.usesOnly_numeral (usesOnly_decimal value)
        (HolType.usesOnly_word _)
  | string contents =>
      change Translation.characters contents = .ok translated at shape
      unfold Translation.characters at shape
      split at shape
      · cases shape
      · obtain rfl := Except.ok.inj shape
        exact HolTerm.usesOnly_characters _

theorem usesOnly_closed (allowed : Text → Prop) :
    TranslationClosed (Fixity.UsesOnly allowed) (HolType.UsesOnly allowed)
      (HolTerm.UsesOnly allowed) where
  toCompositional := usesOnly_compositional allowed
  name _ _ standsFor := standsFor.usesOnly
  literal _ _ written shape := usesOnly_literal written shape
  letIn _ _ identifiers values body :=
    HolTerm.usesOnly_letIn (fun equation member =>
      let ⟨_, standsFor⟩ := identifiers equation member
      standsFor.usesOnly) values body
  bound _ _ _ identifiers types body :=
    HolTerm.usesOnly_bound (fun entry member =>
      let ⟨_, standsFor⟩ := identifiers entry member
      standsFor.usesOnly) types body

end ModelAudit
