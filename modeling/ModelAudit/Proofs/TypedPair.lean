import ModelAudit.Proofs.SettledPair

/-!
# Pairs that are read are well sorted

Symbols are declared while a formula and then a model are read, and a model
declares the functions that it defines before it reads any body. In the table
that all this leads to, every assertion and every body has its sort by the rules
of `Term.HasSort`.
-/

namespace ModelAudit.Session

/-- Assertions are of sort Bool, and the bodies of definitions have the declared
result sort under their parameters. -/
theorem readPair_typed {formulaText modelOutput : Text} {pair : Pair}
    (read : readPair formulaText modelOutput = .ok pair) :
    (∀ assertion ∈ pair.formula.assertions,
        assertion.HasSort pair.symbols Literal.InRange [] .bool) ∧
      ∀ definition ∈ pair.formula.definitions ++ pair.model.definitions,
        definition.declaration.arguments = definition.params.map Prod.snd ∧
          pair.symbols.HasSignature definition.name
            definition.declaration.arguments definition.declaration.result ∧
          definition.body.HasSort pair.symbols Literal.InRange
            (Scope.enter [] definition.params)
            definition.declaration.result := by
  have settled := readPair_settled read
  refine ⟨settled.formula.typed, fun definition member => ?_⟩
  have here := settled.definition definition member
  exact ⟨here.arguments, here.declared, here.typed⟩

/-- A bit-vector `x` hidden by a binder of that name, first in a let and then in
a quantifier, and a function taken as an array. -/
def hiddenBitVector : Pair where
  formula :=
    ⟨[.letIn [("x", .literal (.bitVector 15 4))]
        (.application (.operator .equality) []
          [.symbol "x" (.bitVec 4),
            .application (.operator .bvnot) [] [.literal (.bitVector 0 4)]
              (.bitVec 4)] .bool),
      .quantified .universal [("x", .int)]
        (.application (.operator .equality) []
          [.application (.function "f") [] [.symbol "x" .int] .int,
            .application (.operator .select) []
              [.functionArray "f" .int .int, .symbol "x" .int] .int] .bool)],
              []⟩
  model :=
    ⟨[⟨⟨"f", [.int], .int, .defined⟩, [("x", .int)], .symbol "x" .int⟩,
      ⟨⟨"x", [], .bitVec 4, .defined⟩, [], .literal (.bitVector 1 4)⟩], []⟩
  symbols :=
    ⟨[("f", ⟨"f", [.int], .int, .defined⟩),
      ("x", ⟨"x", [], .bitVec 4, .defined⟩)], [], []⟩

theorem hiddenBitVector_typed :
    readPair
          ("(declare-fun f (Int) Int)(declare-const x (_ BitVec 4))" ++
            "(assert (let ((x #xf)) (= x (bvnot #b0000))))" ++
            "(assert (forall ((x Int)) (= (f x) (select (_ as-array f) x))))")
          "(define-fun f ((x Int)) Int x)(define-fun x () (_ BitVec 4) (_ bv17 4))" =
        .ok hiddenBitVector ∧
      (∀ assertion ∈ hiddenBitVector.formula.assertions,
        assertion.HasSort hiddenBitVector.symbols Literal.InRange [] .bool) ∧
      ∀ definition ∈ hiddenBitVector.model.definitions,
        definition.body.HasSort hiddenBitVector.symbols Literal.InRange
          (Scope.enter [] definition.params) definition.declaration.result := by
  have read : readPair
      ("(declare-fun f (Int) Int)(declare-const x (_ BitVec 4))" ++
        "(assert (let ((x #xf)) (= x (bvnot #b0000))))" ++
        "(assert (forall ((x Int)) (= (f x) (select (_ as-array f) x))))")
      "(define-fun f ((x Int)) Int x)(define-fun x () (_ BitVec 4) (_ bv17 4))" =
        .ok hiddenBitVector :=
    Outcome.toOption_eq_some_iff.mp (by decide +kernel)
  obtain ⟨assertions, definitions⟩ := readPair_typed read
  exact ⟨read, assertions,
    fun definition member => (definitions definition (by simp [member])).2.2⟩

end ModelAudit.Session
