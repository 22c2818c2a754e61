import ModelAudit.Proofs.ConstructedOperators
import ModelAudit.Proofs.SpellingMeaning

/-!
# A semantics of Core and Ints

Operators of Core and Ints have their meaning, and there is a single value for
all other sorts. Applications to more than two operands mean what the attributes
of the operators say.
-/

namespace ModelAudit

namespace CommonValue

/-- Truth values, integers, and one value for all other sorts. -/
def belongs (sort : SmtSort) (value : CommonValue Unit) : Prop :=
  if sort = .bool then ∃ holds, value = .truth holds
  else if sort = .int then ∃ number, value = .number number
  else value = .element ()

def someOf (sort : SmtSort) : CommonValue Unit :=
  if sort = .bool then .truth True else if sort = .int then .number 0
    else .element ()

theorem belongs_someOf (sort : SmtSort) : belongs sort (someOf sort) := by
  unfold belongs someOf
  split
  · exact ⟨True, rfl⟩
  · split
    · exact ⟨0, rfl⟩
    · rfl

theorem belongs_element {sort : SmtSort} (notBool : sort ≠ .bool)
    (notInt : sort ≠ .int) :
    belongs sort (.element ()) := by
  rw [belongs, if_neg notBool, if_neg notInt]

open Classical in
/-- The meaning that an operator of Core or Ints has, or some value. -/
noncomputable def operate (operator : Operator) (sort : SmtSort)
    (values : List (CommonValue Unit)) : CommonValue Unit :=
  match operator.meaning values with
  | some value => if belongs sort value then value else someOf sort
  | none => someOf sort

theorem belongs_operate (operator : Operator) (sort : SmtSort)
    (values : List (CommonValue Unit)) :
    belongs sort (operate operator sort values) := by
  unfold operate
  split
  · split
    · assumption
    · exact belongs_someOf sort
  · exact belongs_someOf sort

/-- The meaning of an operator on two operands, extended by its attribute. -/
noncomputable def operateAll (operator : Operator) (sort : SmtSort)
    (values : List (CommonValue Unit)) : CommonValue Unit :=
  match operator.attribute?, values with
  | some .leftAssociative, first :: second :: others =>
    (second :: others).foldl
      (fun left right => operate operator sort [left, right]) first
  | some .rightAssociative, first :: second :: others =>
    nestRight (fun left right => operate operator sort [left, right]) first
      (second :: others)
  | some .chainable, first :: second :: others =>
    .truth ((first :: second :: others).IsChain fun left right =>
      operate operator sort [left, right] = .truth True)
  | _, values => operate operator sort values

/-- Extended to any number of operands, a conjunction demands that all of them
hold. -/
theorem operateAll_conjunction (operands : List Prop) :
    operateAll .conjunction .bool (operands.map .truth) =
      .truth (∀ holds ∈ operands, holds) := by
  cases operands with
  | nil => exact congrArg CommonValue.truth (propext (by simp))
  | cons first others =>
      have meaning :
          Operator.conjunction.meaning ((first :: others).map .truth) =
          some (.truth (∀ holds ∈ first :: others, holds) : CommonValue
            Unit) := by
        rw [Operator.meaning, Operator.onTruths, mapM_truth?]
        rfl
      change operate .conjunction .bool ((first :: others).map .truth) = _
      rw [operate, meaning]
      exact if_pos ⟨_, rfl⟩

theorem belongs_foldl (operator : Operator) (sort : SmtSort)
    (first second : CommonValue Unit) (others : List (CommonValue Unit)) :
    belongs sort ((second :: others).foldl
      (fun left right => operate operator sort [left, right]) first) := by
  induction others generalizing first second with
  | nil => exact belongs_operate operator sort [first, second]
  | cons third others inductionHypothesis => exact inductionHypothesis _ third

/-- The meaning of an operator belongs to the sort of its application, since the
operands of extended operators share it. -/
theorem belongs_operateAll {operator : Operator} {rule : SignatureRule}
    {indices : List Nat} {sorts : List SmtSort} {sort : SmtSort}
    (known : operator.rule? = some rule)
    (computed : rule.resultSort operator sorts (indices.map Int.ofNat) =
      .ok sort)
    (values : List (CommonValue Unit)) :
    belongs sort (operateAll operator sort values) := by
  unfold operateAll
  split
  · exact belongs_foldl operator sort _ _ _
  · exact belongs_operate operator sort _
  · next chainable =>
    have shape : ∃ function, operator.construction = .chain function := by
      cases operator <;> first | exact ⟨_, rfl⟩ | cases chainable
    obtain ⟨function, shape⟩ := shape
    have gives := SignatureRule.resultSort_eq_ok_iff.mp computed
    obtain ⟨rfl, _⟩ := Operator.chain_operands shape known gives
    exact ⟨_, rfl⟩
  · exact belongs_operate operator sort _

/-- A sum or a product of a single value is the value. -/
theorem operate_single {operator : Operator} {sort : SmtSort}
    {value : CommonValue Unit}
    (identity : operator = .addition ∨ operator = .multiplication)
    (among : sort = .int ∨ sort = .real) (carried : belongs sort value) :
    operate operator sort [value] = value := by
  rcases among with rfl | rfl
  · obtain ⟨number, rfl⟩ : ∃ number, value = .number number := carried
    have meaning : operator.meaning [(.number number : CommonValue Unit)] =
        some (.number number) := by
      rcases identity with rfl | rfl <;> rfl
    rw [operate, meaning]
    exact if_pos ⟨number, rfl⟩
  · obtain rfl : value = .element () := carried
    rcases identity with rfl | rfl <;> rfl

/-- Core and Ints have their meaning, and the other theories a single value. -/
noncomputable def semantics : Semantics (CommonValue Unit) where
  carrier := belongs
  truth := .truth
  literal
    | .bool value => .truth (value = true)
    | .integer value => .number value
    | .decimal _ | .bitVector _ _ | .string _ => .element ()
  operation operator _ _ sort values := operateAll operator sort values
  array _ _ _ := .element ()
  truths _ := Iff.rfl
  truth_injective _ _ same := CommonValue.truth.inj same
  literal_carried value _ := by
    cases value with
    | bool value => exact ⟨_, rfl⟩
    | integer value => exact ⟨_, rfl⟩
    | decimal _ | string _ => rfl
    | bitVector value width =>
        exact belongs_element
          (by simp [Literal.sort, SmtSort.bitVec, SmtSort.bool, SmtSort.simple])
          (by simp [Literal.sort, SmtSort.bitVec, SmtSort.int,
            SmtSort.simple])
  operation_carried operator _ _ _ sort values known computed _ :=
    belongs_operateAll known computed values
  constantArray_carried _ _ value _ := belongs_operate .constantArray _ [value]
  conjunction := operateAll_conjunction
  leftAssociative operator sort first second others associative _ := by
    simp only [operateAll, associative, List.foldl_cons, List.foldl_nil]
  rightAssociative operator sort first second third others associative _ := by
    simp only [operateAll, associative]
    rfl
  chainable operator sort values chainable many _ := by
    match values, many with
    | first :: second :: others, _ =>
        simp only [operateAll, chainable, List.isChain_pair, truth.injEq,
          eq_iff_iff, iff_true]
  single operator sort value identity among carried := by
    refine Eq.trans ?_ (operate_single identity among carried)
    rcases identity with rfl | rfl <;> rfl
  characterAt _ _ := rfl
  current operator := by
    funext indices sorts sort values
    cases operator <;> rfl
  array_carried _ _ _ _ :=
    belongs_element (by simp [SmtSort.array, SmtSort.bool, SmtSort.simple])
      (by simp [SmtSort.array, SmtSort.int, SmtSort.simple])
  array_congr _ _ _ _ _ := rfl

theorem operation_addition (indices : List Nat) (sorts : List SmtSort)
    (first second : Int) :
    semantics.operation .addition indices sorts .int
        [.number first, .number second] =
      .number (first + second) := by
  change operateAll .addition .int [.number first, .number second] = _
  simp only [operateAll, Operator.attribute?, List.foldl_cons, List.foldl_nil]
  exact if_pos ⟨first + second, rfl⟩

end CommonValue

end ModelAudit
