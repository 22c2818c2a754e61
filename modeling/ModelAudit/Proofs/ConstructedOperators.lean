import ModelAudit.Proofs.Denotation
import ModelAudit.Proofs.SignatureDemands

/-!
# Constructed operators

An application of an operator that fits its signature denotes what the operator
makes of the operands, after it has been made of the functions of the solver.
Functions that are overloaded pick the right operator, since the operands are of
one sort; applications to more than two operands are taken apart the way in
which SMT-LIB puts them together.
-/

namespace ModelAudit

variable {Value : Type} {semantics : Semantics Value}
  {assignment : Assignment Value} {values : List Value}
  {function : SolverFunction} {operator : Operator}
  {arguments : List Expression} {sort result : SmtSort}

@[simp]
theorem Literal.literal_constant (value : Literal) :
    value.constant.literal = value := by
  cases value <;> rfl

theorem Expression.denote_operation (function : SolverFunction)
    (indices : List Nat) (arguments : List Expression) (sort : SmtSort) :
    (operation function indices arguments sort).denote semantics assignment
        values =
      semantics.operation
        (function.operator (arguments.map Expression.sort)) indices
        (arguments.map Expression.sort) sort
        (arguments.map (Expression.denote semantics assignment values)) := by
  rw [denote, denoteAll_eq]

namespace Construction

open Expression (denote_operation)

theorem denote_pair {first second : Expression}
    (overloaded : function.operator [sort, sort] = operator)
    (firstSort : first.sort = sort)
    (secondSort : second.sort = sort) :
    (Expression.operation function [] [first, second] result).denote semantics
        assignment values =
      semantics.operation operator [] [sort, sort] result
        [first.denote semantics assignment values,
          second.denote semantics assignment values] := by
  rw [denote_operation, List.map_cons, List.map_singleton, firstSort,
    secondSort, overloaded]
  rfl

/-! ## Operations from the left -/

theorem sort_foldLeft {first : Expression} {others : List Expression}
    (same : first.sort = sort) :
    (foldLeft function sort (first :: others)).sort = sort := by
  rw [foldLeft]
  induction others generalizing first with
  | nil => exact same
  | cons second others inductionHypothesis => exact inductionHypothesis rfl

/-- A fold from the left denotes the fold of the operator over the
denotations. -/
theorem denote_foldLeft {first : Expression} {others : List Expression}
    (overloaded : function.operator [sort, sort] = operator)
    (same : ∀ argument ∈ first :: others, argument.sort = sort) :
    (foldLeft function sort (first :: others)).denote semantics assignment
        values =
      (others.map (Expression.denote semantics assignment values)).foldl
        (fun left right => semantics.operation operator [] [sort, sort] sort
          [left, right])
        (first.denote semantics assignment values) := by
  rw [foldLeft]
  induction others generalizing first with
  | nil => rfl
  | cons second others inductionHypothesis =>
      obtain ⟨firstSort, secondSort, othersSame⟩ := by simpa using same
      rw [List.foldl_cons, inductionHypothesis
        (List.forall_mem_cons.mpr ⟨rfl, othersSame⟩),
        denote_pair overloaded firstSort secondSort]
      rfl

/-! ## Related neighbours -/

/-- Neighbours are the couples of a list with its own tail. -/
theorem isChain_iff_zip {Element : Type} {related : Element → Element → Prop}
    (elements : List Element) :
    elements.IsChain related ↔
      ∀ pair ∈ elements.zip elements.tail, related pair.fst pair.snd := by
  induction elements with
  | nil => simp
  | cons first others inductionHypothesis =>
      cases others with
      | nil => simp
      | cons second others =>
          rw [List.isChain_cons_cons, inductionHypothesis, List.tail_cons,
            List.tail_cons, List.zip_cons_cons, List.forall_mem_cons]

/-- Relations to the next expression, joined, hold if the values are a chain. -/
theorem denote_relateNeighbours
    (overloaded : function.operator [sort, sort] = operator)
    (same : ∀ argument ∈ arguments, argument.sort = sort)
    (truths : ∀ left right, semantics.carrier sort left →
      semantics.carrier sort right →
      semantics.carrier .bool
        (semantics.operation operator [] [sort, sort] .bool [left, right]))
    (carried : ∀ argument ∈ arguments,
      semantics.carrier sort (argument.denote semantics assignment values)) :
    (relateNeighbours function arguments).denote semantics assignment values =
      semantics.truth
          ((arguments.map
            (Expression.denote semantics assignment values)).IsChain
        fun left right =>
          semantics.operation operator [] [sort, sort] .bool [left, right] =
            semantics.truth True) := by
  have inside : ∀ pair ∈ arguments.zip arguments.tail,
      pair.fst ∈ arguments ∧ pair.snd ∈ arguments := fun pair member =>
    ⟨(List.of_mem_zip member).1,
      List.mem_of_mem_tail (List.of_mem_zip member).2⟩
  have each : ∀ pair ∈ arguments.zip arguments.tail,
      (Expression.operation function [] [pair.fst, pair.snd] .bool).denote
          semantics assignment values =
        semantics.operation operator [] [sort, sort] .bool
          [pair.fst.denote semantics assignment values,
            pair.snd.denote semantics assignment values] := by
    intro pair member
    obtain ⟨first, second⟩ := inside pair member
    exact denote_pair overloaded (same _ first) (same _ second)
  have eachTruth :
      ∀ pair ∈ arguments.zip arguments.tail, semantics.carrier .bool
      ((Expression.operation function [] [pair.fst, pair.snd] .bool).denote
        semantics assignment
        values) := by
    intro pair member
    obtain ⟨first, second⟩ := inside pair member
    exact each pair member ▸ truths _ _ (carried _ first) (carried _ second)
  rw [relateNeighbours, denote_operation, List.map_map, List.map_map]
  refine (semantics.conjunction_map eachTruth).trans
    (congrArg semantics.truth (propext ?_))
  rw [List.isChain_map, isChain_iff_zip]
  exact forall₂_congr fun pair member => by rw [each pair member]

/-! ## Premises -/

theorem implyLast_cons (premise next : Expression) (others : List Expression) :
    implyLast (premise :: next :: others) =
      .operation .implies [] [premise, implyLast (next :: others)] .bool :=
  rfl

theorem sort_implyLast {first : Expression} {others : List Expression}
    (same : ∀ argument ∈ first :: others, argument.sort = .bool) :
    (implyLast (first :: others)).sort = .bool := by
  cases others with
  | nil => exact same first (List.mem_singleton_self first)
  | cons second others => rfl

/-- A chain of implications denotes the implication of all operands, which
associates to the right. -/
theorem denote_implyLast {first second : Expression} {others : List Expression}
    (same : ∀ argument ∈ first :: second :: others, argument.sort = .bool)
    (carried : ∀ argument ∈ first :: second :: others,
      semantics.carrier .bool (argument.denote semantics assignment values)) :
    (implyLast (first :: second :: others)).denote semantics assignment values =
      semantics.operation .implication []
        ((first :: second :: others).map fun _ => .bool)
        .bool ((first :: second :: others).map
          (Expression.denote semantics assignment values)) := by
  induction others generalizing first second with
  | nil =>
      obtain ⟨firstSort, secondSort⟩ := by simpa using same
      exact denote_pair rfl firstSort secondSort
  | cons third others inductionHypothesis =>
      obtain ⟨firstSort, laterSame⟩ := List.forall_mem_cons.mp same
      obtain ⟨firstCarried, laterCarried⟩ := List.forall_mem_cons.mp carried
      have law := semantics.rightAssociative .implication .bool
        (first.denote semantics assignment values)
        (second.denote semantics assignment values)
        (third.denote semantics assignment values)
        (others.map (Expression.denote semantics assignment values)) rfl
        (by simpa using carried)
      rw [implyLast_cons, denote_pair rfl firstSort (sort_implyLast laterSame),
        inductionHypothesis laterSame laterCarried]
      simp only [List.map_cons, List.map_map] at law ⊢
      exact law.symm

/-! ## Overloaded functions -/

/-- The function that an operator is made of, if it is a single one. -/
def function? : Construction → Option SolverFunction
  | direct function | unary function | binary function | indexed function
  | left function
  | chain function => some function
  | implications | differences | characterAt => none

end Construction

namespace Operator

variable {rule : SignatureRule} {sorts : List SmtSort} {indices : List Int}

private theorem headD_eq {shared : SmtSort} (nonempty : sorts ≠ [])
    (same : ∀ sort ∈ sorts, sort = shared) : sorts.headD .bool = shared := by
  obtain ⟨first, others, rfl⟩ := List.exists_cons_of_ne_nil nonempty
  exact same first (List.mem_cons_self ..)

/-- For operands that fit the operator, the function that it is made of stands
for it. -/
theorem function_operator
    (made : operator.construction.function? = some function)
    (known : operator.rule? = some rule)
    (gives : rule.Gives sorts indices sort) :
    function.operator sorts = operator.current := by
  cases gives with
  | numbers _ nonempty same among =>
      have head := headD_eq nonempty same
      cases operator <;> cases known <;> cases made <;>
        simp only [List.mem_cons, List.not_mem_nil, or_false] at among <;>
        (first | subst among | obtain rfl | rfl := among) <;>
        simp only [SolverFunction.operator, head] <;> rfl
  | bitVectors _ nonempty same wide =>
      have head := headD_eq nonempty same
      cases operator <;> cases known <;> cases made <;>
        simp only [SolverFunction.operator, head, wide] <;> rfl
  | strings count same =>
      have nonempty : sorts ≠ [] := by
        rintro rfl
        cases operator <;> cases known
        all_goals cases count
      have head := headD_eq nonempty same
      cases operator <;> cases known <;> cases made <;>
        simp only [SolverFunction.operator, head] <;> rfl
  | concatenation wide _ =>
      cases operator <;> cases known
      cases made
      exact if_pos (Option.isSome_of_eq_some wide)
  | _ => cases operator <;> cases known <;> cases made <;> rfl

/-! ## Operands by construction -/

theorem indices_eq_nil
    (shape : ∀ function, operator.construction ≠ .indexed function)
    (known : operator.rule? = some rule)
    (gives : rule.Gives sorts indices sort) :
    indices = [] := by
  refine gives.indices_eq_nil ?_ ?_
  all_goals
    rintro rfl
    cases operator <;> cases known <;> exact absurd rfl (shape _)

theorem single_operand
    (shape : operator.construction = .unary function ∨
      operator.construction = .indexed function)
    (known : operator.rule? = some rule)
    (gives : rule.Gives sorts indices sort) :
    ∃ operand, sorts = [operand] := by
  have count : rule.arity = .exactly 1 := by
    cases operator <;> cases known <;>
      first | rfl | (rcases shape with shape | shape <;> cases shape)
  exact List.length_eq_one_iff.mp
    (Arity.exactly_allows_iff.mp (count ▸ gives.allows))

theorem binary_operands (shape : operator.construction = .binary function)
    (known : operator.rule? = some rule)
    (gives : rule.Gives sorts indices sort) :
    ∃ left right, sorts = [left, right] := by
  have count : rule.arity = .exactly 2 := by
    cases operator <;> cases shape <;> cases known <;> rfl
  exact List.length_eq_two.mp
    (Arity.exactly_allows_iff.mp (count ▸ gives.allows))

/-- Operands that are combined from the left are of the sort of the result. -/
theorem left_operands (shape : operator.construction = .left function)
    (known : operator.rule? = some rule)
    (gives : rule.Gives sorts indices sort) :
    ∀ operand ∈ sorts, operand = sort := by
  cases gives with
  | booleans _ same => exact same
  | numbers _ _ same _ | bitVectors _ _ same _ =>
      cases operator <;> cases known <;> first | exact same | cases shape
  | _ => cases operator <;> cases known <;> cases shape

/-- Operands of which neighbours are related share a sort, and two of them
suffice. -/
theorem chain_operands (shape : operator.construction = .chain function)
    (known : operator.rule? = some rule)
    (gives : rule.Gives sorts indices sort) :
    sort = .bool ∧ 2 ≤ sorts.length ∧
      ∃ shared, (∀ operand ∈ sorts, operand = shared) ∧
      rule.Gives [shared, shared] [] .bool := by
  cases gives with
  | @comparison _ shared count same =>
      exact ⟨rfl, count, shared, same,
        @SignatureRule.Gives.comparison _ shared le_rfl (by simp)⟩
  | numbers count _ same among =>
      cases operator <;> cases known <;>
        first
        | exact ⟨rfl, Arity.atLeast_allows_iff.mp count, _, same,
            .numbers rfl (by simp) (by simp) among⟩
        | cases shape
  | strings count same =>
      cases operator <;> cases known <;>
        first
        | exact ⟨rfl, Arity.atLeast_allows_iff.mp count, _, same,
          .strings rfl (by simp)⟩
        | cases shape
  | _ => cases operator <;> cases known <;> cases shape

/-- More than two operands are combined from the left only if SMT-LIB says so. A
single one is combined in sums and products. -/
theorem left_counts (shape : operator.construction = .left function)
    (known : operator.rule? = some rule)
    (gives : rule.Gives sorts indices sort) :
    sorts ≠ [] ∧
      (operator.attribute? = some .leftAssociative ∨ sorts.length = 2) ∧
      (sorts.length = 1 → (operator = .addition ∨ operator = .multiplication) ∧
        (sort = .int ∨ sort = .real)) := by
  cases gives with
  | booleans count =>
      cases operator <;> cases known <;> cases shape
      have two := Arity.atLeast_allows_iff.mp count
      exact ⟨List.ne_nil_of_length_pos (by omega), .inl rfl, by omega⟩
  | numbers count nonempty _ among =>
      refine ⟨nonempty, ?_⟩
      cases operator <;> cases known <;> cases shape
      all_goals
        have least := (Arity.allows_iff.mp count).1
        first
        | exact ⟨.inl rfl, fun single => absurd least (by rw [single]; decide)⟩
        | exact ⟨.inl rfl, fun _ => ⟨by simp, by simpa using among⟩⟩
  | bitVectors count nonempty =>
      refine ⟨nonempty, ?_⟩
      cases operator <;> cases known <;> cases shape
      all_goals
        have least := (Arity.allows_iff.mp count).1
        first
        | exact ⟨.inl rfl, fun single => absurd least (by rw [single]; decide)⟩
        | exact ⟨.inr (Arity.exactly_allows_iff.mp count),
            fun single => absurd least (by rw [single]; decide)⟩
  | _ => cases operator <;> cases known <;> cases shape

/-- The operands of an implication are truth values, at least two of them. -/
theorem implication_operands
    (gives : (SignatureRule.booleans (.atLeast 2)).Gives sorts indices sort) :
    sort = .bool ∧ 2 ≤ sorts.length ∧ ∀ operand ∈ sorts, operand = .bool := by
  cases gives with
  | booleans count same => exact ⟨rfl, Arity.atLeast_allows_iff.mp count, same⟩

/-- The operands of a subtraction are numbers of one sort, at least one of
them. -/
theorem subtraction_operands
    (gives : (SignatureRule.numbers (.atLeast 1) [.int, .real] false).Gives
      sorts indices sort) :
    sorts ≠ [] ∧ (∀ operand ∈ sorts, operand = sort) ∧
    (sort = .int ∨ sort = .real) := by
  cases gives with
  | numbers _ nonempty same among =>
    exact ⟨nonempty, same, by simpa using among⟩

/-- Functions look at the sort of the first operand only. -/
theorem function_operator_pair {shared : SmtSort}
    (made : operator.construction.function? = some function)
    (known : operator.rule? = some rule) (gives : rule.Gives sorts indices sort)
    (nonempty : sorts ≠ []) (same : ∀ operand ∈ sorts, operand = shared) :
    function.operator [shared, shared] = operator.current := by
  rw [← function_operator made known gives]
  obtain ⟨first, others, rfl⟩ := List.exists_cons_of_ne_nil nonempty
  rw [same first (List.mem_cons_self ..)]
  rfl

end Operator

/-! ## The meaning of constructed applications -/

/-- The expression has the sort of the application and denotes what the operator
makes of the values of the operands. -/
def Expression.Applies (expression : Expression) (semantics : Semantics Value)
    (assignment : Assignment Value) (operator : Operator) (indices : List Nat)
    (arguments : List Expression) (sort : SmtSort) : Prop :=
  expression.sort = sort ∧ ∀ values,
    semantics.Fits (arguments.map Expression.sort)
      (arguments.map (Expression.denote semantics assignment values)) →
    expression.denote semantics assignment values =
      semantics.operation operator indices (arguments.map Expression.sort) sort
        (arguments.map (Expression.denote semantics assignment values))

theorem Semantics.Fits.carried {shared : SmtSort}
    (fits : semantics.Fits (arguments.map Expression.sort)
      (arguments.map (Expression.denote semantics assignment values)))
    (same : ∀ argument ∈ arguments, argument.sort = shared) :
    ∀ argument ∈ arguments,
      semantics.carrier shared
        (argument.denote semantics assignment values) := by
  rw [Semantics.Fits, List.forall₂_map_left_iff, List.forall₂_map_right_iff,
    List.forall₂_same] at fits
  exact fun argument member => same argument member ▸ fits argument member

namespace Construction

open Expression (denote_operation)

variable {shared : SmtSort}

/-- Two operands or more, combined from the left. -/
theorem applies_foldLeft
    (overloaded : function.operator [sort, sort] = operator)
    (same : ∀ argument ∈ arguments, argument.sort = sort)
    (nested : operator.attribute? = some .leftAssociative ∨
      arguments.length = 2)
    (many : 2 ≤ arguments.length) :
    (foldLeft function sort arguments).Applies semantics assignment operator []
      arguments sort := by
  have sorts : arguments.map Expression.sort = arguments.map fun _ => sort :=
    List.map_congr_left same
  match arguments, many with
  | first :: second :: others, _ =>
      refine ⟨sort_foldLeft (same first (List.mem_cons_self ..)),
        fun values fits => ?_⟩
      have carried := fits.carried same
      rw [denote_foldLeft overloaded same, sorts]
      rcases nested with associative | two
      · have law := semantics.leftAssociative operator sort
          (first.denote semantics assignment values)
          (second.denote semantics assignment values)
          (others.map (Expression.denote semantics assignment values))
            associative
          (by simpa using carried)
        simp only [List.map_cons, List.map_map] at law ⊢
        exact law.symm
      · obtain rfl : others = [] := by simpa using two
        rfl

/-- A sum or a product of any number of operands. -/
theorem applies_foldLeft_single
    (same : ∀ argument ∈ arguments, argument.sort = sort)
    (single : arguments.length = 1)
    (identity : operator = .addition ∨ operator = .multiplication)
    (among : sort = .int ∨ sort = .real) :
    (foldLeft function sort arguments).Applies semantics assignment operator []
      arguments sort := by
  obtain ⟨argument, rfl⟩ := List.length_eq_one_iff.mp single
  have sortEq := same argument (List.mem_singleton_self argument)
  refine ⟨sortEq, fun values fits => ?_⟩
  have carried := fits.carried same argument (List.mem_singleton_self argument)
  rw [List.map_singleton, List.map_singleton, sortEq,
    semantics.single operator sort _ identity among carried]
  rfl

/-- What is built for a chainable operator denotes what the operator makes of
its operands. -/
theorem applies_relateNeighbours
    (overloaded : function.operator [shared, shared] = operator)
    (same : ∀ argument ∈ arguments, argument.sort = shared)
    (truths : ∀ left right, semantics.carrier shared left →
      semantics.carrier shared right →
      semantics.carrier .bool
        (semantics.operation operator [] [shared, shared] .bool [left, right]))
    (chainable : operator.attribute? = some .chainable)
    (many : 2 ≤ arguments.length) :
    (relateNeighbours function arguments).Applies semantics assignment operator
      [] arguments .bool := by
  refine ⟨rfl, fun values fits => ?_⟩
  have carried := fits.carried same
  have law := semantics.chainable operator shared
    (arguments.map (Expression.denote semantics assignment values)) chainable
    (by simpa using many) (by simpa using carried)
  rw [denote_relateNeighbours overloaded same truths carried,
    List.map_congr_left same, ← law, List.map_map]
  rfl

/-- What is built for an implication denotes what it makes of its operands. -/
theorem applies_implyLast (same : ∀ argument ∈ arguments, argument.sort = .bool)
    (many : 2 ≤ arguments.length) :
    (implyLast arguments).Applies semantics assignment .implication [] arguments
      .bool := by
  match arguments, many with
  | first :: second :: others, _ =>
      refine ⟨sort_implyLast same, fun values fits => ?_⟩
      rw [denote_implyLast same (fits.carried same), List.map_congr_left same]

/-- An opposite or differences. -/
theorem applies_differences
    (same : ∀ argument ∈ arguments, argument.sort = sort)
    (nonempty : arguments ≠ []) (among : sort = .int ∨ sort = .real) :
    (differences.build [] arguments sort).Applies semantics assignment
      .subtraction [] arguments sort := by
  match arguments, nonempty with
  | [single], _ =>
      have overloaded :
          SolverFunction.opposite.operator [sort] = .subtraction := by
        rcases among with rfl | rfl <;> rfl
      refine ⟨rfl, fun values _ => ?_⟩
      rw [build, denote_operation, List.map_singleton,
        List.forall_mem_singleton.mp same, overloaded]
  | first :: second :: others, _ =>
      have overloaded :
          SolverFunction.minus.operator [sort, sort] = .subtraction := by
        rcases among with rfl | rfl <;> rfl
      exact applies_foldLeft overloaded same (.inl rfl) (by simp)

theorem applies_characterAt {contents place : Expression}
    (contentsSort : contents.sort = .string) (placeSort : place.sort = .int) :
    (characterAt.build [] [contents, place] .string).Applies semantics
      assignment .stringAt [] [contents, place] .string := by
  refine ⟨rfl, fun values _ => ?_⟩
  rw [build, denote_operation]
  simp only [List.map_cons, List.map_nil, contentsSort, placeSort,
    semantics.characterAt]
  rfl

end Construction

namespace Operator

open Construction
open Expression (denote_operation)

variable {rule : SignatureRule} {indices : List Nat}

/-- Operands that are combined from the left, a single one among them. -/
theorem applies_left (shape : operator.construction = .left function)
    (known : operator.rule? = some rule)
    (gives : rule.Gives (arguments.map Expression.sort) [] sort) :
    ((left function).build [] arguments sort).Applies semantics assignment
      operator [] arguments sort := by
  obtain ⟨nonempty, nested, single⟩ := left_counts shape known gives
  have same := left_operands shape known gives
  have overloaded : function.operator [sort, sort] = operator := by
    rw [function_operator_pair
      (congrArg function? shape) known gives nonempty same]
    cases operator <;> cases shape <;> rfl
  rw [List.forall_mem_map] at same
  rw [List.length_map] at nested single
  rcases Nat.lt_or_ge arguments.length 2 with few | many
  · have count :=
      List.length_pos_of_ne_nil
        (mt (congrArg (List.map Expression.sort)) nonempty)
    obtain ⟨identity, among⟩ := single (by omega)
    exact applies_foldLeft_single same (by omega) identity among
  · exact applies_foldLeft overloaded same nested many

/-- Operands of which neighbours are related. -/
theorem applies_chain (shape : operator.construction = .chain function)
    (known : operator.rule? = some rule)
    (gives : rule.Gives (arguments.map Expression.sort) [] sort) :
    ((chain function).build [] arguments sort).Applies semantics assignment
      operator [] arguments sort := by
  obtain ⟨rfl, many, shared, same, pair⟩ := chain_operands shape known gives
  have overloaded : function.operator [shared, shared] = operator := by
    rw [function_operator_pair (congrArg function? shape) known gives
      (List.ne_nil_of_length_pos (by omega)) same]
    cases operator <;> cases shape <;> rfl
  rw [List.forall_mem_map] at same
  rw [List.length_map] at many
  refine applies_relateNeighbours overloaded same ?_ ?_ many
  · exact fun left right leftCarried rightCarried =>
      semantics.operation_carried operator rule
        [] _ _ _ known pair.resultSort
        (.cons leftCarried (.cons rightCarried .nil))
  · cases operator <;> cases shape <;> rfl

/-- An application that fits the signature of the operator is made to an
expression of its sort, which denotes what the operator makes of the values of
the operands. -/
theorem applies_construct (known : operator.rule? = some rule)
    (gives : rule.Gives (arguments.map Expression.sort)
      (indices.map Int.ofNat) sort) :
    (operator.construct indices arguments sort).Applies semantics assignment
      operator indices arguments sort := by
  have plain (shape : ∀ function, operator.construction ≠ .indexed function) :
      indices = [] :=
    List.map_eq_nil_iff.mp (indices_eq_nil shape known gives)
  have direct (function : SolverFunction)
      (made : operator.construction.function? = some function) :
      (Expression.operation function indices arguments sort).Applies semantics
        assignment operator indices arguments sort := by
    refine ⟨rfl, fun values _ => ?_⟩
    rw [denote_operation, function_operator made known gives,
      ← semantics.current]
  rw [construct]
  cases shape : operator.construction with
  | direct function =>
      obtain rfl := plain (by simp [shape])
      exact direct function (congrArg function? shape)
  | unary function =>
      obtain rfl := plain (by simp [shape])
      obtain ⟨operand, single⟩ := single_operand (.inl shape) known gives
      obtain ⟨argument, rfl, rfl⟩ := List.map_eq_singleton_iff.mp single
      exact direct function (congrArg function? shape)
  | binary function =>
      obtain rfl := plain (by simp [shape])
      obtain ⟨left, right, pair⟩ := binary_operands shape known gives
      obtain ⟨first, others, rfl, rfl, single⟩ := List.map_eq_cons_iff.mp pair
      obtain ⟨second, rfl, rfl⟩ := List.map_eq_singleton_iff.mp single
      exact direct function (congrArg function? shape)
  | indexed function =>
      obtain ⟨operand, single⟩ := single_operand (.inr shape) known gives
      obtain ⟨argument, rfl, rfl⟩ := List.map_eq_singleton_iff.mp single
      exact direct function (congrArg function? shape)
  | left function =>
      obtain rfl := plain (by simp [shape])
      exact applies_left shape known gives
  | chain function =>
      obtain rfl := plain (by simp [shape])
      exact applies_chain shape known gives
  | implications =>
      obtain rfl := plain (by simp [shape])
      cases operator <;> cases shape
      cases known
      obtain ⟨rfl, many, same⟩ := implication_operands gives
      rw [List.forall_mem_map] at same
      rw [List.length_map] at many
      exact applies_implyLast same many
  | differences =>
      obtain rfl := plain (by simp [shape])
      cases operator <;> cases shape
      cases known
      obtain ⟨nonempty, same, among⟩ := subtraction_operands gives
      rw [List.forall_mem_map] at same
      exact applies_differences same
        (mt (congrArg (List.map Expression.sort)) nonempty) among
  | characterAt =>
      obtain rfl := plain (by simp [shape])
      cases operator <;> cases shape
      cases known
      generalize sortsEq : arguments.map Expression.sort = sorts at gives
      cases gives
      obtain ⟨first, others, rfl, firstSort, single⟩ :=
        List.map_eq_cons_iff.mp sortsEq
      obtain ⟨second, rfl, secondSort⟩ := List.map_eq_singleton_iff.mp single
      exact applies_characterAt firstSort secondSort

end Operator

end ModelAudit
