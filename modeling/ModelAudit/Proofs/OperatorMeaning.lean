import ModelAudit.Proofs.SignatureDemands
import ModelAudit.Proofs.SpellingMeaning
import ModelAudit.Proofs.TypeTranslation

/-!
# Well-sorted applications keep their meaning

The signature of an operator decides what its arguments can be, and with it
which applications have to be spelled.
-/

namespace ModelAudit

/-! ## What signatures demand -/

namespace SignatureRule

variable {operator : Operator} {arguments : List SmtSort} {indices : List Int}
  {sort : SmtSort}

theorem booleans_spec {arity : Arity}
    (fits : resultSort (.booleans arity) operator arguments indices =
      .ok sort) :
    sort = .bool ∧ (∀ argument ∈ arguments, argument = .bool) ∧
      arity.least ≤ arguments.length ∧
      ∀ most, arity.most = some most → arguments.length ≤ most := by
  cases gives_of_resultSort fits with
  | booleans count sorts => exact ⟨rfl, sorts, Arity.allows_iff.mp count⟩

theorem comparison_spec
    (fits : resultSort .comparison operator arguments indices = .ok sort) :
    sort = .bool ∧ 2 ≤ arguments.length := by
  cases gives_of_resultSort fits with
  | comparison count _ => exact ⟨rfl, count⟩

theorem conditional_spec
    (fits : resultSort .conditional operator arguments indices = .ok sort) :
    arguments = [.bool, sort, sort] := by
  cases gives_of_resultSort fits with
  | conditional => rfl

/-- An operator on numbers gets as many arguments as its rule allows, and gives
a number or a truth value. -/
theorem numbers_spec {arity : Arity} {allowed : List SmtSort} {toBool : Bool}
    (fits : resultSort (.numbers arity allowed toBool) operator arguments
      indices = .ok sort)
    (integers : ∀ argument ∈ arguments, argument = .int) :
    sort = (if toBool then .bool else .int) ∧ arguments ≠ [] ∧
      arity.least ≤ arguments.length ∧
      ∀ most, arity.most = some most → arguments.length ≤ most := by
  cases gives_of_resultSort fits with
  | @numbers _ _ _ _ shared count nonempty sorts _ =>
      obtain ⟨first, member⟩ := List.exists_mem_of_ne_nil arguments nonempty
      obtain rfl : shared = .int :=
        (sorts first member).symm.trans (integers first member)
      exact ⟨rfl, nonempty, Arity.allows_iff.mp count⟩

theorem conversion_spec {operand result : SmtSort}
    (fits : resultSort (.conversion operand result) operator arguments indices =
      .ok sort) :
    sort = result ∧ arguments.length = 1 := by
  cases gives_of_resultSort fits with
  | conversion => exact ⟨rfl, rfl⟩

end SignatureRule

variable {Element : Type} {symbols : SymbolTable}

namespace Interpretation

variable (interpretation : Interpretation Element symbols)

/-- Values of the given sorts. -/
def Carries (sorts : List SmtSort)
    (values : List (CommonValue Element)) : Prop :=
  List.Forall₂ interpretation.carrier sorts values

variable {interpretation} {sorts : List SmtSort}
  {values : List (CommonValue Element)}

private theorem exists_of_carries {Value : Type}
    {inject : Value → CommonValue Element} {shared : SmtSort}
    (shape : ∀ value, interpretation.carrier shared value ↔
      ∃ injected, value = inject injected)
    (carried : interpretation.Carries sorts values)
    (same : ∀ sort ∈ sorts, sort = shared) :
    ∃ injected : List Value, values = injected.map inject := by
  induction carried with
  | nil => exact ⟨[], rfl⟩
  | @cons sort value sorts values head _ inductionHypothesis =>
      obtain rfl : sort = shared := same sort (by simp)
      obtain ⟨first, rfl⟩ := (shape value).mp head
      obtain ⟨others, rfl⟩ := inductionHypothesis fun sort member =>
        same sort (List.mem_cons_of_mem _ member)
      exact ⟨first :: others, rfl⟩

theorem truths_of_carries (carried : interpretation.Carries sorts values)
    (booleans : ∀ sort ∈ sorts, sort = .bool) :
    ∃ truths : List Prop, values = truths.map .truth :=
  exists_of_carries interpretation.truths carried booleans

theorem numbers_of_carries (carried : interpretation.Carries sorts values)
    (integers : ∀ sort ∈ sorts, sort = .int) :
    ∃ numbers : List Int, values = numbers.map .number :=
  exists_of_carries interpretation.integers carried integers

end Interpretation

namespace Translation

open HolTerm

variable {interpretation : Interpretation Element symbols} {operator : Operator}
  {indices : List Nat} {sorts : List SmtSort} {sort : SmtSort}
  {terms : List HolTerm}

/-- The application of an operator is spelled, and the spelling has the value of
the application, which is one of its sort. -/
def KeepsMeaning (interpretation : Interpretation Element symbols)
    (operator : Operator) (indices : List Nat) (sorts : List SmtSort)
    (sort : SmtSort) (terms : List HolTerm) : Prop :=
  ∃ translated,
    spell ⟨.default, symbols.userSorts⟩ operator indices terms sort =
      .ok translated ∧
    ∀ (reading : HolInterpretation Element) environment values,
      ConstantsFree environment →
      Evaluates reading environment terms values →
      interpretation.Carries sorts values →
      ∃ result, operator.meaning values = some result ∧
        interpretation.carrier sort result ∧
        translated.value reading environment = some result

theorem keepsMeaning_of_preserves {Value Image : Type}
    {inject : Value → CommonValue Element} {image : Image → CommonValue Element}
    (preserved : Preserves inject image symbols.userSorts operator indices
      sort terms)
    (carried : ∀ values, interpretation.Carries sorts values →
      ∃ injected : List Value, values = injected.map inject)
    (results : ∀ result, interpretation.carrier sort (image result)) :
    KeepsMeaning interpretation operator indices sorts sort terms := by
  obtain ⟨translated, spelled, means⟩ := preserved
  refine ⟨translated, spelled, ?_⟩
  intro reading environment values free evaluated typed
  obtain ⟨injected, rfl⟩ := carried values typed
  obtain ⟨result, meaning, value⟩ :=
    means reading environment injected free evaluated
  exact ⟨image result, meaning, results result, value⟩

theorem indexType?_ok {names : List Text} (ground : sort.Ground names) :
    ∃ indexType, indexType? ⟨.default, names⟩ sort = .ok indexType := by
  cases ground with
  | basic _ => exact ⟨none, rfl⟩
  | bitVec _ => exact ⟨none, rfl⟩
  | named _ => exact ⟨none, rfl⟩
  | array index _ =>
      obtain ⟨type, translated⟩ := index.toHol_ok
      refine ⟨some type, ?_⟩
      simp [indexType?, SmtSort.array, SmtSort.arrayParts?, translated]

/-- A conditional chooses alike before and after the translation. -/
theorem keepsMeaning_conditional (ground : sort.Ground symbols.userSorts)
    (test first second : HolTerm) :
    KeepsMeaning interpretation .conditional indices [.bool, sort, sort] sort
      [test, first, second] := by
  obtain ⟨type, typed⟩ := ground.toHol_ok
  obtain ⟨indexType, indexed⟩ := indexType?_ok ground
  refine ⟨_, preserves_conditional typed indexed test first second, ?_⟩
  intro reading environment values _ evaluated carried
  cases evaluated with | cons testValue rest =>
  cases rest with | cons firstValue rest =>
  cases rest with | cons secondValue rest =>
  cases rest
  cases carried with | cons testCarried rest =>
  cases rest with | cons firstCarried rest =>
  cases rest with | cons secondCarried rest =>
  obtain ⟨holds, rfl⟩ := (interpretation.truths _).mp testCarried
  refine ⟨_, rfl, ?_, ?_⟩
  · unfold CommonValue.choose
    split
    · exact firstCarried
    · exact secondCarried
  · rw [HolTerm.value, testValue, firstValue, secondValue]
    rfl

private theorem exists_two_of_length {Value : Type} {values : List Value}
    (least : 2 ≤ values.length) :
    ∃ first second others, values = first :: second :: others := by
  match values with
  | [] | [_] => simp at least
  | first :: second :: others => exact ⟨first, second, others, rfl⟩

theorem bool_ground {names : List Text} : SmtSort.bool.Ground names :=
  .basic (by decide)

theorem int_ground {names : List Text} : SmtSort.int.Ground names :=
  .basic (by decide)

section Rules

variable (fits : ∃ rule, operator.rule? = some rule ∧
    rule.resultSort operator sorts (indices.map Int.ofNat) = .ok sort)
  (lengths : terms.length = sorts.length)
include fits

/-- The result has the sort that the operator's rule gives. -/
private theorem resultSort_of_rule {signature : SignatureRule}
    (rule : operator.rule? = some signature) :
    signature.resultSort operator sorts (indices.map Int.ofNat) = .ok sort := by
  obtain ⟨other, known, fits⟩ := fits
  obtain rfl := Option.some.inj (rule.symm.trans known)
  exact fits

include lengths

/-- Operators on truth values. -/
private theorem keepsMeaning_booleans {arity : Arity}
    (rule : operator.rule? = some (.booleans arity))
    (preserved : ∀ terms : List HolTerm, arity.least ≤ terms.length →
      (∀ most, arity.most = some most → terms.length ≤ most) →
      Preserves (ofTruth : Prop → CommonValue Element) ofTruth symbols.userSorts
        operator indices .bool terms) :
    sort.Ground symbols.userSorts ∧
      KeepsMeaning interpretation operator indices sorts sort terms := by
  obtain ⟨rfl, booleans, least, most⟩ :=
    SignatureRule.booleans_spec (resultSort_of_rule fits rule)
  rw [← lengths] at least most
  refine ⟨bool_ground, keepsMeaning_of_preserves
    (preserved terms least most) ?_ ?_⟩
  · exact fun values carried =>
      Interpretation.truths_of_carries carried booleans
  · exact fun holds => (interpretation.truths _).mpr ⟨holds, rfl⟩

/-- Relations between values of one sort. -/
private theorem keepsMeaning_comparison
    (rule : operator.rule? = some .comparison)
    (preserved : ∀ (first second : HolTerm) (others : List HolTerm),
      Preserves (id : CommonValue Element →
        CommonValue Element) ofTruth symbols.userSorts operator
        indices .bool (first :: second :: others)) :
    sort.Ground symbols.userSorts ∧
      KeepsMeaning interpretation operator indices sorts sort terms := by
  obtain ⟨rfl, least⟩ :=
    SignatureRule.comparison_spec (resultSort_of_rule fits rule)
  obtain ⟨first, second, others, rfl⟩ := exists_two_of_length (lengths ▸ least)
  refine ⟨bool_ground, keepsMeaning_of_preserves
    (preserved first second others) ?_ ?_⟩
  · exact fun values _ => ⟨values, (List.map_id values).symm⟩
  · exact fun holds => (interpretation.truths _).mpr ⟨holds, rfl⟩

/-- Arithmetical operations, on integers. -/
private theorem keepsMeaning_numbers {arity : Arity} {allowed : List SmtSort}
    (rule : operator.rule? = some (.numbers arity allowed false))
    (preserved : ∀ terms : List HolTerm, terms ≠ [] →
      arity.least ≤ terms.length →
      (∀ most, arity.most = some most → terms.length ≤ most) →
      Preserves (ofNumber : Int →
        CommonValue Element) ofNumber symbols.userSorts operator indices
        .int terms)
    (integers : ∀ sort ∈ sorts, sort = .int) :
    sort.Ground symbols.userSorts ∧
      KeepsMeaning interpretation operator indices sorts sort terms := by
  obtain ⟨rfl, nonempty, least, most⟩ :=
    SignatureRule.numbers_spec (resultSort_of_rule fits rule) integers
  rw [← lengths] at least most
  have termsNonempty : terms ≠ [] := by
    rintro rfl
    exact nonempty (List.length_eq_zero_iff.mp lengths.symm)
  refine ⟨int_ground,
    keepsMeaning_of_preserves (preserved terms termsNonempty least most) ?_ ?_⟩
  · exact fun values carried =>
      Interpretation.numbers_of_carries carried integers
  · exact fun value => (interpretation.integers _).mpr ⟨value, rfl⟩

/-- Arithmetical relations, on integers. -/
private theorem keepsMeaning_relation {symbol : Text}
    {related : Int → Int → Prop}
    (rule : operator.rule? = some (.numbers (.atLeast 2) [.int, .real] true))
    (known : operator.defaultSpelling? = some (.chained symbol))
    (connects : Connects (.infixed symbol) (ofNumber : Int →
      CommonValue Element) ofTruth related)
    (meaning : ∀ values : List (CommonValue Element),
      operator.meaning values = Operator.onNeighbours values related)
    (integers : ∀ sort ∈ sorts, sort = .int) :
    sort.Ground symbols.userSorts ∧
      KeepsMeaning interpretation operator indices sorts sort terms := by
  obtain ⟨rfl, _, least, _⟩ :=
    SignatureRule.numbers_spec (resultSort_of_rule fits rule) integers
  obtain ⟨first, second, others, rfl⟩ := exists_two_of_length (lengths ▸ least)
  refine ⟨bool_ground, keepsMeaning_of_preserves
    (preserves_comparison known connects meaning first second others) ?_ ?_⟩
  · exact fun values carried =>
      Interpretation.numbers_of_carries carried integers
  · exact fun holds => (interpretation.truths _).mpr ⟨holds, rfl⟩

end Rules

variable (interpretation) in
/-- Operators of Core and Ints keep their meaning, the arithmetical ones on
integers. -/
theorem operator_keepsMeaning
    (covered : operator.isCore = true ∨
      operator.isInts = true ∧ ∀ sort ∈ sorts, sort = .int)
    (fits : ∃ rule, operator.rule? = some rule ∧
      rule.resultSort operator sorts (indices.map Int.ofNat) = .ok sort)
    (ground : ∀ sort ∈ sorts, sort.Ground symbols.userSorts)
    (lengths : terms.length = sorts.length) :
    sort.Ground symbols.userSorts ∧
      KeepsMeaning interpretation operator indices sorts sort terms := by
  rcases covered with core | ⟨ints, integers⟩
  · cases operator with
    | negation =>
        refine keepsMeaning_booleans fits lengths rfl ?_
        intro terms least most
        obtain ⟨term, rfl⟩ :=
          List.length_eq_one_iff.mp (le_antisymm (most 1 rfl) least)
        exact preserves_negation term
    | conjunction =>
        exact keepsMeaning_booleans fits lengths rfl fun _ least _ =>
          preserves_conjunction (List.ne_nil_of_length_pos least)
    | disjunction =>
        exact keepsMeaning_booleans fits lengths rfl fun _ least _ =>
          preserves_disjunction (List.ne_nil_of_length_pos least)
    | implication =>
        refine keepsMeaning_booleans fits lengths rfl ?_
        intro terms least _
        obtain ⟨first, second, others, rfl⟩ := exists_two_of_length least
        exact preserves_implication first second others
    | exclusiveOr =>
        refine keepsMeaning_booleans fits lengths rfl ?_
        intro terms least _
        obtain ⟨first, second, others, rfl⟩ := exists_two_of_length least
        exact preserves_exclusiveOr first second others
    | equality =>
      exact keepsMeaning_comparison fits lengths rfl preserves_equality
    | distinctness =>
      exact keepsMeaning_comparison fits lengths rfl preserves_distinctness
    | conditional =>
        obtain rfl :=
          SignatureRule.conditional_spec (resultSort_of_rule fits rfl)
        obtain ⟨test, first, second, rfl⟩ := List.length_eq_three.mp lengths
        have sortGround := ground sort (by simp)
        exact ⟨sortGround, keepsMeaning_conditional sortGround test
          first second⟩
    | _ => cases core
  · cases operator with
    | addition =>
        exact keepsMeaning_numbers fits lengths rfl
          (fun _ nonempty _ _ => preserves_addition nonempty) integers
    | subtraction =>
        exact keepsMeaning_numbers fits lengths rfl
          (fun _ nonempty _ _ => preserves_subtraction nonempty) integers
    | multiplication =>
        exact keepsMeaning_numbers fits lengths rfl
          (fun _ nonempty _ _ => preserves_multiplication nonempty) integers
    | integerDivision =>
        refine keepsMeaning_numbers fits lengths rfl ?_ integers
        intro terms _ least _
        obtain ⟨first, second, others, rfl⟩ := exists_two_of_length least
        exact preserves_integerDivision first second others
    | modulus =>
        refine keepsMeaning_numbers fits lengths rfl ?_ integers
        intro terms _ least most
        obtain ⟨first, second, rfl⟩ :=
          List.length_eq_two.mp (le_antisymm (most 2 rfl) least)
        exact preserves_modulus first second
    | absolute =>
        obtain ⟨rfl, count⟩ :=
          SignatureRule.conversion_spec (resultSort_of_rule fits rfl)
        obtain ⟨term, rfl⟩ := List.length_eq_one_iff.mp (lengths.trans count)
        refine ⟨int_ground, keepsMeaning_of_preserves
          (preserves_absolute term) ?_ ?_⟩
        · exact fun values carried =>
            Interpretation.numbers_of_carries carried integers
        · exact fun value => (interpretation.integers _).mpr ⟨value, rfl⟩
    | less | atMost | greater | atLeast =>
        exact keepsMeaning_relation fits lengths rfl rfl
          (fun _ _ _ => ⟨_, combines_infixed rfl, fun _ _ => rfl⟩)
          (fun _ => rfl) integers
    | _ => cases ints

end Translation

end ModelAudit
