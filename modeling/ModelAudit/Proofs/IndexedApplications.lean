import ModelAudit.Proofs.SignatureDemands
import ModelAudit.Proofs.WrittenTerms

/-!
# Applications of indexed names

The rules of the operators say how many indices there are: two of an extraction,
one of an extension and none of any other operator. They are not asked about a
declared function, which keeps all the indices that are written, nor about a
constant array with a stated sort, which loses them.
-/

namespace ModelAudit

/-! ## Indices of operators -/

/-- How many indices the rule requires. -/
def SignatureRule.indexCount : SignatureRule → Nat
  | extraction => 2
  | extension => 1
  | _ => 0

/-- An operation that the signatures admit has the number of indices that its
rule requires. -/
theorem SignatureRule.length_of_resultSort {rule : SignatureRule}
    {operator : Operator} {arguments : List SmtSort} {indices : List Int}
    {sort : SmtSort}
    (fits : rule.resultSort operator arguments indices = .ok sort) :
    indices.length = rule.indexCount := by
  cases SignatureRule.gives_of_resultSort fits <;> rfl

/-- The operators whose rules require indices. -/
theorem Operator.indexed_cases {operator : Operator} {rule : SignatureRule}
    (ruled : operator.rule? = some rule) (indexed : rule.indexCount ≠ 0) :
    operator = .extraction ∧ rule.indexCount = 2 ∨
      (operator = .zeroExtension ∨ operator = .signExtension) ∧
      rule.indexCount = 1 := by
  cases operator with
  | extraction =>
      obtain rfl := Option.some.inj ruled
      exact .inl ⟨rfl, rfl⟩
  | zeroExtension =>
      obtain rfl := Option.some.inj ruled
      exact .inr ⟨.inl rfl, rfl⟩
  | signExtension =>
      obtain rfl := Option.some.inj ruled
      exact .inr ⟨.inr rfl, rfl⟩
  | constantArray | functionArray => cases ruled
  | _ =>
      obtain rfl := Option.some.inj ruled
      exact absurd rfl indexed

/-- The term applies the operator of this name, which is an extraction with two
indices or an extension with one. -/
def Term.IsIndexedOperation (name : Text) (indices : List Nat)
    (term : Term) : Prop :=
  ∃ operator arguments sort,
    term = .application (.operator operator) indices arguments sort ∧
    operator.name = name ∧
    (operator = .extraction ∧ indices.length = 2 ∨
      (operator = .zeroExtension ∨ operator = .signExtension) ∧
      indices.length = 1)

/-! ## Indexed heads -/

/-- The expression applies an indexed name: `((_ name index …) argument …)`, or
with a stated sort `((as (_ name index …) sort) argument …)`. -/
inductive SExpr.AppliesIndexed (name : Text) (written : List SExpr) :
    Bool → SExpr → Prop
  | plain {mark nameExpression : SExpr} {arguments : List SExpr}
      {headPosition position : Position} :
      mark.isSymbol "_" = true → nameExpression.symbol? = some name →
      AppliesIndexed name written false
        (.list (.list (mark :: nameExpression :: written) headPosition ::
          arguments) position)
  | qualified {qualifier mark nameExpression sortExpression : SExpr}
      {arguments : List SExpr}
      {innerPosition headPosition position : Position} :
      qualifier.isSymbol "as" = true → mark.isSymbol "_" = true →
      nameExpression.symbol? = some name →
      AppliesIndexed name written true
        (.list (.list
            [qualifier, .list (mark :: nameExpression :: written) innerPosition,
          sortExpression] headPosition :: arguments) position)

variable {symbols : SymbolTable} {scope : Scope} {name : Text}
  {written : List SExpr}

theorem SExpr.eq_of_isSymbol {expression : SExpr} {name other : Text}
    (isName : expression.isSymbol name = true)
    (isOther : expression.isSymbol other = true) :
    name = other :=
  Option.some.inj
    ((SExpr.symbol?_of_isSymbol isName).symm.trans
      (SExpr.symbol?_of_isSymbol isOther))

/-- An indexed name that is read has one index at least, each a numeral. -/
theorem indices_of_readIndexedName {nameExpression expression : SExpr}
    {read : Text × List Nat} (named : nameExpression.symbol? = some name)
    (other : name ≠ Operator.functionArray.name)
    (isRead : readIndexedName (nameExpression :: written) expression =
      .ok read) :
    read.fst = name ∧ read.snd ≠ [] ∧
    written.mapM readNumeral = .ok read.snd := by
  unfold readIndexedName at isRead
  split at isRead
  next head first others items =>
    obtain ⟨rfl, rfl⟩ := List.cons.inj items
    rw [named] at isRead
    dsimp only at isRead
    rw [if_neg other] at isRead
    obtain ⟨indices, numerals, isRead⟩ := Outcome.bind_eq_ok.mp isRead
    obtain rfl := Except.ok.inj isRead
    refine ⟨rfl, fun empty => ?_, numerals⟩
    obtain rfl : indices = [] := empty
    cases (Outcome.mapM_eq_ok.mp numerals).length_eq
  · cases isRead

theorem exists_applyList_of_readTerm {items arguments : List SExpr}
    {headPosition position : Position} {term : Term}
    (read : readTerm symbols scope
        (.list (.list items headPosition :: arguments) position) =
      .ok term) :
    ∃ terms, applyList symbols scope items (.list items headPosition) terms
      (.list (.list items headPosition :: arguments) position) = .ok term := by
  rw [readTerm] at read
  split at read
  · cases read
  · obtain ⟨terms, _, applied⟩ := Outcome.bind_eq_ok.mp read
    exact ⟨terms, applied⟩

/-- Where an indexed name is applied, its indices are numerals, and there are
some. -/
theorem SExpr.AppliesIndexed.exists_applies {expression : SExpr}
    {qualified : Bool} {term : Term}
    (indexed : expression.AppliesIndexed name written qualified)
    (other : name ≠ Operator.functionArray.name)
    (read : readTerm symbols scope expression = .ok term) :
    ∃ indices stated arguments, indices ≠ [] ∧
      written.mapM readNumeral = .ok indices ∧
      Option.isSome stated = qualified ∧
      Applies symbols name indices stated arguments term := by
  cases indexed with
  | plain isMark named =>
      obtain ⟨arguments, applied⟩ := exists_applyList_of_readTerm read
      obtain ⟨_, indices, _, gives, applied⟩ := exists_givesName applied
      cases gives with
      | indexed _ nameRead =>
          obtain ⟨rfl, nonempty, numerals⟩ :=
            indices_of_readIndexedName named other nameRead
          exact ⟨indices, none, arguments, nonempty, numerals, rfl,
            applies_of_applyName applied⟩
      | qualified isQualifier _ | qualifiedIndexed isQualifier _ _ _ =>
          exact absurd (SExpr.eq_of_isSymbol isQualifier isMark) (by decide)
  | qualified isQualifier isMark named =>
      obtain ⟨arguments, applied⟩ := exists_applyList_of_readTerm read
      obtain ⟨_, indices, _, gives, applied⟩ := exists_givesName applied
      cases gives with
      | indexed isOther _ =>
        exact absurd (SExpr.eq_of_isSymbol isQualifier isOther) (by decide)
      | @qualifiedIndexed _ _ _ _ _ _ _ stated _ _ _ nameRead =>
          obtain ⟨rfl, nonempty, numerals⟩ :=
            indices_of_readIndexedName named other nameRead
          exact ⟨indices, some stated, arguments, nonempty, numerals, rfl,
            applies_of_applyName applied⟩

theorem SymbolTable.WellFormed.lookup?_operator
    (wellFormed : symbols.WellFormed) (operator : Operator) :
    symbols.lookup? operator.name = none := by
  cases found : symbols.lookup? operator.name with
  | none => rfl
  | some declaration =>
      have unreserved := wellFormed.isBuiltinName_eq_false found
      rw [operator.isBuiltinName_name] at unreserved
      cases unreserved

/-- What becomes of an indexed name that is applied, with a stated sort or
without one. -/
structure IndexedOutcome (symbols : SymbolTable) (name : Text)
    (indices : List Nat) (qualified : Bool) (term : Term) : Prop where
  /-- It is an operation that takes these indices, but for two kinds of
  names. -/
  operation : term.IsIndexedOperation name indices ↔
    symbols.lookup? name = none ∧
    ¬(qualified = true ∧ name = Operator.constantArray.name)
  /-- A declared function keeps the indices. -/
  function : ∀ declaration, symbols.lookup? name = some declaration →
    ∃ arguments,
      term = .application (.function name) indices arguments declaration.result
  /-- A constant array loses them. -/
  constantArray : qualified = true → name = Operator.constantArray.name →
    ∃ value sort, term = .application (.operator .constantArray) [] [value] sort

/-- An indexed name applies an operator with its indices, or a declared function
or constant array whose indices are not looked at. -/
theorem Applies.indexedOutcome {indices : List Nat} {stated : Option SmtSort}
    {arguments : List Term} {term : Term}
    (applies : Applies symbols name indices stated arguments term)
    (wellFormed : symbols.WellFormed) (nonempty : indices ≠ []) :
    IndexedOutcome symbols name indices stated.isSome term := by
  have undeclared : name = Operator.constantArray.name →
      symbols.lookup? name = none := by
    rintro rfl
    exact wellFormed.lookup?_operator .constantArray
  cases applies with
  | @constantArray value sort isConstant isStated =>
      rw [isStated]
      refine ⟨⟨?_, fun plain => absurd ⟨rfl, isConstant⟩ plain.2⟩, ?_,
        fun _ _ => ⟨_, _, rfl⟩⟩
      · rintro ⟨_, _, _, same, _⟩
        exact absurd (Term.application.inj same).2.1.symm nonempty
      · intro declaration found
        rw [undeclared isConstant] at found
        cases found
  | @function arguments declaration found =>
      refine ⟨⟨?_, fun plain => ?_⟩, ?_, fun _ isConstant => ?_⟩
      · rintro ⟨_, _, _, same, _⟩
        cases (Term.application.inj same).1
      · rw [found] at plain
        cases plain.1
      · intro other otherFound
        obtain rfl := Option.some.inj (found.symm.trans otherFound)
        exact ⟨_, rfl⟩
      · rw [undeclared isConstant] at found
        cases found
  | @operation arguments operator rule sort absent named ruled fits =>
      have count := SignatureRule.length_of_resultSort fits
      rw [List.length_map] at count
      have indexed : rule.indexCount ≠ 0 := by
        rw [← count]
        exact mt List.length_eq_zero_iff.mp nonempty
      have takes := Operator.indexed_cases ruled indexed
      have other : name ≠ Operator.constantArray.name := by
        rw [← named]
        rcases takes with ⟨rfl, _⟩ | ⟨rfl | rfl, _⟩ <;> decide
      rw [← count] at takes
      refine ⟨⟨fun _ => ⟨absent, fun constant => other constant.2⟩,
        fun _ => ⟨operator, arguments, sort, rfl, named, takes⟩⟩, ?_, ?_⟩
      · intro declaration found
        rw [absent] at found
        cases found
      · exact fun _ isConstant => absurd isConstant other

namespace Session

/-- Whatever has been read before, reading an accepted text comes to each
application of an indexed name that is written in it, and to each such
application in a part of a term that the text yields. The indices are numerals.
The application is an extraction with two indices or an extension with one,
unless the name is a declared function or is `const` with a stated sort. -/
theorem indexed_applications (inputs : List Input) {input : Input}
    {terms : List Term}
    (yields : (start.readInputs inputs).Yields input terms) :
    (∀ expression, input.Contains expression →
      ∃ symbols scope, (start.readInputs inputs).Meets input symbols
        ⟨scope, expression⟩) ∧
    ∀ symbols scope expression name written qualified,
      (start.readInputs inputs).Meets input symbols ⟨scope, expression⟩ →
      expression.AppliesIndexed name written qualified →
      name ≠ Operator.functionArray.name →
      ∃ indices, written.mapM readNumeral = .ok indices ∧
        ∃ term ∈ terms, ∃ part : Term, part.PartOf term ∧
          readTerm symbols scope expression = .ok part ∧
          IndexedOutcome symbols name indices qualified part := by
  have wellFormed :=
    (readInputs_grows wellFormed_start inputs).1.wellFormed wellFormed_start
  refine ⟨fun expression contains => yields.exists_meets wellFormed contains,
    ?_⟩
  intro symbols scope expression name written qualified meets indexed applied
  obtain ⟨here, term, member, part, within, read⟩ :=
    yields.exists_read wellFormed meets
  obtain ⟨indices, stated, arguments, nonempty, numerals, isStated, applies⟩ :=
    indexed.exists_applies applied read
  rw [← isStated]
  exact ⟨indices, numerals, term, member, part, within, read,
    applies.indexedOutcome here nonempty⟩

def indexedHeads : Text :=
  "(declare-fun f (Int) Int)" ++
    "(assert (= ((_ f 7) 1) (select ((as (_ const 3) (Array Int Int)) 5) 0)))"

/-- Whether the second command asserts that an application of indexed `f` equals
a selection from an application of indexed and qualified `const`. -/
def assertsIndexedHeads : List SExpr → Bool
  | [_, .list [mark, .list [equals, .list (.list (index :: name :: _) _ :: _) _,
      .list (select :: .list
        (.list [qualifier, .list (innerIndex :: innerName :: _) _, _] _ :: _) _
        :: _) _] _] _] =>
    mark.isSymbol "assert" && equals.isApplied && select.isApplied &&
      index.isSymbol "_" &&
      name.isSymbol "f" && qualifier.isSymbol "as" && innerIndex.isSymbol "_" &&
      innerName.isSymbol Operator.constantArray.name
  | _ => false

/-- Where the two heads stand in the formula. -/
theorem exists_indexedHeads :
    ∃ called array calledIndices arrayIndices,
      (Input.formula indexedHeads).Contains called ∧
      called.AppliesIndexed "f" calledIndices false ∧
      (Input.formula indexedHeads).Contains array ∧
      array.AppliesIndexed Operator.constantArray.name arrayIndices true := by
  have shaped :
      (readExpressions indexedHeads).toOption.map assertsIndexedHeads =
        some true := by
    decide +kernel
  obtain ⟨commands, isRead, passed⟩ := Option.map_eq_some_iff.mp shaped
  unfold assertsIndexedHeads at passed
  split at passed
  · simp only [Bool.and_eq_true] at passed
    obtain ⟨⟨⟨⟨⟨⟨⟨isAssertion, equals⟩, select⟩, index⟩, name⟩, qualifier⟩,
      innerIndex⟩,
      innerName⟩ := passed
    have asserted {part : SExpr} (within : SExpr.Contains _ part) :
        (Input.formula indexedHeads).Contains part :=
      ⟨_, Outcome.toOption_eq_some_iff.mp isRead, _,
        List.mem_cons_of_mem _ (List.mem_singleton_self _), _,
        SExpr.states_assertion isAssertion, within⟩
    have calledStands :=
      asserted (.single (.argument equals List.mem_cons_self))
    have arrayStands := asserted <| .tail
      (.single (.argument equals
        (List.mem_cons_of_mem _ (List.mem_singleton_self _))))
      (.argument select List.mem_cons_self)
    exact ⟨_, _, _, _, calledStands,
      .plain index (SExpr.symbol?_of_isSymbol name), arrayStands,
      .qualified qualifier innerIndex (SExpr.symbol?_of_isSymbol innerName)⟩
  · cases passed

/-- The formula is accepted. The function keeps its index and the array loses
it; neither is an operation that takes indices. -/
theorem indexedHeads_accepted :
    ∃ terms, start.Yields (.formula indexedHeads) terms ∧
      ∃ called array calledIndices arrayIndices,
        (Input.formula indexedHeads).Contains called ∧
        called.AppliesIndexed "f" calledIndices false ∧
        (Input.formula indexedHeads).Contains array ∧
        array.AppliesIndexed Operator.constantArray.name arrayIndices true ∧
        (∃ term ∈ terms, ∃ part : Term, part.PartOf term ∧
          ∃ indices arguments sort,
          calledIndices.mapM readNumeral = .ok indices ∧
          part = .application (.function "f") indices arguments sort) ∧
        ∃ term ∈ terms, ∃ part : Term, part.PartOf term ∧ ∃ value sort,
          part = .application (.operator .constantArray) [] [value] sort := by
  have accepted :
      (start.readFormula indexedHeads).fst.toOption.isSome = true := by
    decide +kernel
  obtain ⟨formula, read⟩ := Option.isSome_iff_exists.mp accepted
  have yields : start.Yields (.formula indexedHeads) formula.terms :=
    .formula (Prod.ext (Outcome.toOption_eq_some_iff.mp read) rfl)
  obtain ⟨called, array, calledIndices, arrayIndices, calledStands,
    calledApplies, arrayStands, arrayApplies⟩ := exists_indexedHeads
  obtain ⟨meets, outcome⟩ := indexed_applications [] yields
  refine ⟨formula.terms, yields, called, array, calledIndices, arrayIndices,
    calledStands, calledApplies, arrayStands, arrayApplies, ?_, ?_⟩
  · obtain ⟨symbols, scope, met⟩ := meets called calledStands
    obtain ⟨indices, numerals, term, member, part, within, _, becomes⟩ :=
      outcome _ _ _ _ _ _ met calledApplies (by decide)
    refine ⟨term, member, part, within, indices, ?_⟩
    cases found : symbols.lookup? "f" with
    | some declaration =>
        obtain ⟨arguments, same⟩ := becomes.function declaration found
        exact ⟨arguments, _, numerals, same⟩
    | none =>
        obtain ⟨operator, _, _, _, named, _⟩ :=
          becomes.operation.mpr
            ⟨found, fun constant => Bool.false_ne_true constant.1⟩
        have builtin := operator.isBuiltinName_name
        rw [named] at builtin
        exact absurd builtin (by decide)
  · obtain ⟨symbols, scope, met⟩ := meets array arrayStands
    obtain ⟨_, _, term, member, part, within, _, becomes⟩ :=
      outcome _ _ _ _ _ _ met arrayApplies (by decide)
    exact ⟨term, member, part, within, becomes.constantArray rfl rfl⟩

end Session

end ModelAudit
