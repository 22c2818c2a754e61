import ModelAudit.Proofs.Legible
import ModelAudit.Proofs.Meaning

/-!
# What texts mean

The value of a text is that of the term it is read as. For a legible term this
is the value of the term itself.
-/

namespace ModelAudit

variable {Element : Type}

/-- The value of the term that a text is read as. -/
noncomputable def HolInterpretation.textValue
    (reading : HolInterpretation Element)
    (environment : Table (CommonValue Element)) (text : Text) :
    Option (CommonValue Element) := do
  (← InnerSyntax.read text).value reading environment

open InnerSyntax

namespace HolTerm

/-- The term as it is read has the value of the term. -/
def ReadsAlike (reading : HolInterpretation Element) (term : HolTerm) : Prop :=
  ∀ environment, term.plain.value reading environment =
    term.value reading environment

variable {reading : HolInterpretation Element}
  {environment : Table (CommonValue Element)}

theorem valueAll_plainAll (environment : Table (CommonValue Element))
    {terms : List HolTerm} (alike : ∀ term ∈ terms, term.ReadsAlike reading) :
    valueAll reading environment (plainAll terms) =
      valueAll reading environment terms := by
  induction terms with
  | nil => rfl
  | cons first others inductionHypothesis =>
      have head := alike first (by simp) environment
      have tail := inductionHypothesis fun term member =>
        alike term (List.mem_cons_of_mem _ member)
      rw [plainAll, valueAll, valueAll, head, tail]

theorem readsAlike_apply {function : HolTerm} {identifier : Text}
    {arguments : List HolTerm}
    (head : function = .name identifier ∨ function = .constant identifier)
    (alike : ∀ argument ∈ arguments, argument.ReadsAlike reading) :
    (apply function arguments).ReadsAlike reading := by
  intro environment
  have all := valueAll_plainAll environment alike
  cases arguments with
  | nil => rcases head with rfl | rfl <;> rfl
  | cons first others =>
      rw [plainAll] at all
      rcases head with rfl | rfl
      · simp only [plain, value, all]
      · simp only [plain, value, all]

theorem value_conjunctionSymbol {left right : HolTerm} :
    (operation conjunctionSymbol left right).value reading environment = (do
      let leftHolds ← (left.value reading environment).bind CommonValue.truth?
      let rightHolds ← (right.value reading environment).bind CommonValue.truth?
      return .truth (leftHolds ∧ rightHolds)) := by
  have known : holInfixes.find? conjunctionSymbol = some fun left right :
      CommonValue Element =>
        do return .truth ((← left.truth?) ∧ (← right.truth?)) := rfl
  rw [value, known]
  cases left.value reading environment <;>
    cases right.value reading environment <;> simp

noncomputable def truths (reading : HolInterpretation Element)
    (environment : Table (CommonValue Element)) (terms : List HolTerm) :
    Option (List Prop) := do
  (← valueAll reading environment terms).mapM CommonValue.truth?

private theorem forall_mem_cons_holds (first : Prop) (others : List Prop) :
    (first ∧ ∀ holds ∈ others, holds) = ∀ holds ∈ first :: others, holds :=
  propext (List.forall_mem_cons (p := fun holds : Prop => holds)).symm

theorem truths_cons (first : HolTerm) (others : List HolTerm) :
    truths reading environment (first :: others) = (do
      let holds ← (first.value reading environment).bind CommonValue.truth?
      let rest ← truths reading environment others
      return holds :: rest) := by
  rw [truths, truths, valueAll]
  cases first.value reading environment with
  | none => rfl
  | some value =>
      cases valueAll reading environment others with
      | none => cases value.truth? <;> simp
      | some values => simp

/-- Nested conjunctions are true if all parts are. -/
theorem truth_plainConjuncts (environment : Table (CommonValue Element))
    (first : HolTerm) (others : List HolTerm)
    (alike : ∀ part ∈ first :: others, part.ReadsAlike reading) :
    ((plainConjuncts (first :: others)).value reading environment).bind
        CommonValue.truth? =
      (truths reading environment (first :: others)).map fun parts =>
        ∀ holds ∈ parts, holds := by
  induction others generalizing first with
  | nil =>
      have empty : truths reading environment [] = some [] := rfl
      rw [plainConjuncts, alike first (by simp) environment, truths_cons, empty]
      cases (first.value reading environment).bind CommonValue.truth? with
      | none => rfl
      | some holds =>
          have single : holds = ∀ other ∈ [holds], other :=
            propext (List.forall_mem_singleton
              (p := fun other : Prop => other)).symm
          exact congrArg some single
  | cons second others inductionHypothesis =>
      have head := alike first (by simp) environment
      have tail := inductionHypothesis second fun part member =>
        alike part (List.mem_cons_of_mem _ member)
      have shape : plainConjuncts (first :: second :: others) =
          .operation conjunctionSymbol first.plain
            (plainConjuncts (second :: others)) := rfl
      rw [shape, value_conjunctionSymbol, head, tail, truths_cons first]
      cases (first.value reading environment).bind CommonValue.truth? with
      | none => rfl
      | some holds =>
          cases truths reading environment (second :: others) with
          | none => rfl
          | some rest => exact congrArg some (forall_mem_cons_holds holds rest)

/-- Reading a conjunction as nested to the right does not change its value. -/
theorem readsAlike_conjunction {parts : List HolTerm}
    (several : 2 ≤ parts.length)
    (alike : ∀ part ∈ parts, part.ReadsAlike reading) :
    (conjunction parts).ReadsAlike reading := by
  intro environment
  match parts with
  | [] | [_] => simp at several
  | first :: second :: others =>
      have head := alike first (by simp) environment
      have tail := truth_plainConjuncts environment second others
        fun part member => alike part (List.mem_cons_of_mem _ member)
      have shape : (conjunction (first :: second :: others)).plain =
          .operation conjunctionSymbol first.plain
            (plainConjuncts (second :: others)) := rfl
      have whole :
          (conjunction (first :: second :: others)).value reading environment =
            (do
              let parts ← truths reading environment (first :: second :: others)
              return .truth (∀ holds ∈ parts, holds)) := by
        rw [value, truths]
        cases valueAll reading environment (first :: second :: others) <;> rfl
      rw [shape, value_conjunctionSymbol, head, tail, whole, truths_cons first]
      cases (first.value reading environment).bind CommonValue.truth? with
      | none => rfl
      | some holds =>
          cases truths reading environment (second :: others) with
          | none => rfl
          | some rest =>
              exact congrArg (some ∘ CommonValue.truth)
                (forall_mem_cons_holds holds rest)

theorem enterEquations_plainEquations
    (environment : Table (CommonValue Element))
    {equations : List (Text × HolTerm)}
    (alike : ∀ equation ∈ equations, equation.snd.ReadsAlike reading) :
    enterEquations reading environment (plainEquations equations) =
      enterEquations reading environment equations := by
  induction equations generalizing environment with
  | nil => rfl
  | cons equation others inductionHypothesis =>
      obtain ⟨identifier, term⟩ := equation
      have head := alike (identifier, term) (by simp) environment
      have tail (bound : CommonValue Element) := inductionHypothesis
        ((identifier, bound) :: environment)
        fun equation member => alike equation (List.mem_cons_of_mem _ member)
      simp only [plainEquations, enterEquations, head, tail]

/-- A legible term has the value of what its text is read as. -/
theorem Legible.readsAlike {term : HolTerm} (legible : term.Legible) :
    term.ReadsAlike reading := by
  induction legible with
  | name known | constant known | numeral decimal typed =>
      intro environment
      simp only [plain, value]
  | prefixed known _ argumentAlike =>
      exact readsAlike_apply (.inr rfl)
        (List.forall_mem_singleton.mpr argumentAlike)
  | apply head known _ alike => exact readsAlike_apply head alike
  | operation known _ _ leftAlike rightAlike =>
      intro environment
      rw [plain, value, value, leftAlike environment, rightAlike environment]
  | conjunction several _ alike =>
      exact readsAlike_conjunction several alike
  | conditional _ _ _ testAlike firstAlike secondAlike =>
      intro environment
      rw [plain, value, value, testAlike environment, firstAlike environment,
        secondAlike environment]
  | letIn nonempty bindable _ _ alike bodyAlike =>
      intro environment
      simp only [plain, value, enterEquations_plainEquations _ alike,
        bodyAlike _]
  | bound nonempty bindable _ bodyAlike =>
      intro environment
      simp only [plain, value, bodyAlike _]

theorem Legible.textValue_text {term : HolTerm} (legible : term.Legible) :
    reading.textValue environment term.text =
      term.value reading environment := by
  rw [HolInterpretation.textValue, legible.read_text]
  exact legible.readsAlike environment

end HolTerm

end ModelAudit
