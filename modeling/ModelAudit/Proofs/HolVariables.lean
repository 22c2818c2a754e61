import ModelAudit.Proofs.SpelledOperators

/-!
# Variables of HOL terms

The variables that occur free in a term and those that it binds. The variables
of an applied operator are those of its arguments.
-/

namespace ModelAudit

namespace HolTerm

mutual

/-- The variables that occur free; a variable may be listed more than once. -/
def freeVariables : HolTerm → List Text
  | name identifier => [identifier]
  | constant _ => []
  | numeral _ _ => []
  | characters _ => []
  | operatorSection _ => []
  | apply function arguments =>
    function.freeVariables ++ freeVariablesOfAll arguments
  | operation _ left right => left.freeVariables ++ right.freeVariables
  | conjunction parts => freeVariablesOfAll parts
  | conditional test first second =>
    test.freeVariables ++ first.freeVariables ++ second.freeVariables
  | update function argument value =>
    function.freeVariables ++ argument.freeVariables ++ value.freeVariables
  | constantFunction _ value => value.freeVariables
  | typed _ arguments _ => freeVariablesOfAll arguments
  | isIntegral number => number.freeVariables
  | letIn equations body => freeVariablesOfLet equations body.freeVariables
  | bound _ names body =>
    body.freeVariables.filter fun identifier =>
      !(names.map Prod.fst).contains identifier

def freeVariablesOfAll : List HolTerm → List Text
  | [] => []
  | term :: terms => term.freeVariables ++ freeVariablesOfAll terms

/-- The free variables of equations that scope one after the other over a body
with the given free variables. -/
def freeVariablesOfLet : List (Text × HolTerm) → List Text → List Text
  | [], inner => inner
  | (identifier, value) :: equations, inner =>
    value.freeVariables ++
      (freeVariablesOfLet equations inner).filter fun other =>
        other ≠ identifier

end

mutual

/-- The variables that quantifiers, abstractions and lets bind anywhere
inside. -/
def boundVariables : HolTerm → List Text
  | name _ => []
  | constant _ => []
  | numeral _ _ => []
  | characters _ => []
  | operatorSection _ => []
  | apply function arguments =>
    function.boundVariables ++ boundVariablesOfAll arguments
  | operation _ left right => left.boundVariables ++ right.boundVariables
  | conjunction parts => boundVariablesOfAll parts
  | conditional test first second =>
    test.boundVariables ++ first.boundVariables ++ second.boundVariables
  | update function argument value =>
    function.boundVariables ++ argument.boundVariables ++ value.boundVariables
  | constantFunction _ value => value.boundVariables
  | typed _ arguments _ => boundVariablesOfAll arguments
  | isIntegral number => number.boundVariables
  | letIn equations body => boundVariablesOfLet equations ++ body.boundVariables
  | bound _ names body => names.map Prod.fst ++ body.boundVariables

def boundVariablesOfAll : List HolTerm → List Text
  | [] => []
  | term :: terms => term.boundVariables ++ boundVariablesOfAll terms

def boundVariablesOfLet : List (Text × HolTerm) → List Text
  | [] => []
  | (identifier, value) :: equations =>
    identifier :: value.boundVariables ++ boundVariablesOfLet equations

end

variable {identifier : Text}

theorem mem_freeVariablesOfAll {terms : List HolTerm} :
    identifier ∈ freeVariablesOfAll terms ↔
      ∃ term ∈ terms, identifier ∈ term.freeVariables := by
  induction terms with
  | nil => simp [freeVariablesOfAll]
  | cons first others inductionHypothesis =>
    simp [freeVariablesOfAll, inductionHypothesis]

theorem mem_boundVariablesOfAll {terms : List HolTerm} :
    identifier ∈ boundVariablesOfAll terms ↔
      ∃ term ∈ terms, identifier ∈ term.boundVariables := by
  induction terms with
  | nil => simp [boundVariablesOfAll]
  | cons first others inductionHypothesis =>
    simp [boundVariablesOfAll, inductionHypothesis]

theorem mem_boundVariablesOfLet {equations : List (Text × HolTerm)} :
    identifier ∈ boundVariablesOfLet equations ↔
      identifier ∈ equations.map Prod.fst ∨
        ∃ equation ∈ equations, identifier ∈ equation.snd.boundVariables := by
  induction equations with
  | nil => simp [boundVariablesOfLet]
  | cons first others inductionHypothesis =>
      simp only [boundVariablesOfLet, inductionHypothesis, List.map_cons,
        List.mem_cons, List.cons_append, List.mem_append, exists_eq_or_imp]
      tauto

/-- A variable that is free in a let is free in some equation, or it is free in
the body and no equation binds it. -/
theorem of_mem_freeVariablesOfLet {equations : List (Text × HolTerm)}
    {inner : List Text}
    (member : identifier ∈ freeVariablesOfLet equations inner) :
    (∃ equation ∈ equations, identifier ∈ equation.snd.freeVariables) ∨
      identifier ∈ inner ∧ identifier ∉ equations.map Prod.fst := by
  induction equations with
  | nil => exact .inr ⟨member, List.not_mem_nil⟩
  | cons first others inductionHypothesis =>
      obtain ⟨other, value⟩ := first
      rcases List.mem_append.mp member with here | later
      · exact .inl ⟨(other, value), List.mem_cons_self, here⟩
      · obtain ⟨later, different⟩ := List.mem_filter.mp later
        rcases inductionHypothesis later
          with ⟨equation, inside, free⟩ | ⟨free, unbound⟩
        · exact .inl ⟨equation, List.mem_cons_of_mem _ inside, free⟩
        · refine .inr ⟨free, ?_⟩
          rw [List.map_cons, List.mem_cons, not_or]
          exact ⟨by simpa using different, unbound⟩

theorem forall_mem_freeVariablesOfAll {allowed : Text → Prop}
    {terms : List HolTerm}
    (each : ∀ term ∈ terms, ∀ identifier ∈ term.freeVariables,
      allowed identifier) :
    ∀ identifier ∈ freeVariablesOfAll terms, allowed identifier := by
  intro identifier member
  obtain ⟨term, inside, occurs⟩ := mem_freeVariablesOfAll.mp member
  exact each term inside identifier occurs

/-- All free variables have a property. -/
theorem compositional_freeVariables (allowed : Text → Prop) :
    Compositional (fun _ => True) (fun _ => True)
      fun term => ∀ identifier ∈ term.freeVariables, allowed identifier where
  truth _ member := absurd member (by simp [HolTerm.truth, freeVariables])
  call _ _ _ arguments := by
    rw [call, freeVariables, freeVariables]
    exact forall_mem_freeVariablesOfAll arguments
  applySection _ _ _ arguments := by
    rw [freeVariables, freeVariables]
    exact forall_mem_freeVariablesOfAll arguments
  operation _ _ _ _ left right := by
    rw [freeVariables]
    exact List.forall_mem_append.mpr ⟨left, right⟩
  conjunction _ _ parts := by
    rw [freeVariables]
    exact forall_mem_freeVariablesOfAll parts
  functions _ _ := trivial
  index _ _ member := absurd member (by simp [freeVariables])
  ofSort _ _ _ _ := trivial
  apply _ _ function arguments := by
    rw [freeVariables]
    exact List.forall_mem_append.mpr
      ⟨function, forall_mem_freeVariablesOfAll arguments⟩
  conditional _ _ _ test first second := by
    rw [freeVariables]
    exact List.forall_mem_append.mpr
      ⟨List.forall_mem_append.mpr ⟨test, first⟩, second⟩
  update _ _ _ function argument value := by
    rw [freeVariables]
    exact List.forall_mem_append.mpr
      ⟨List.forall_mem_append.mpr ⟨function, argument⟩, value⟩
  constantFunction _ _ _ value := by
    rw [freeVariables]
    exact value
  typed _ _ _ _ arguments _ := by
    rw [freeVariables]
    exact forall_mem_freeVariablesOfAll arguments
  isIntegral _ number := by
    rw [freeVariables]
    exact number

theorem forall_mem_boundVariablesOfAll {allowed : Text → Prop}
    {terms : List HolTerm}
    (each : ∀ term ∈ terms, ∀ identifier ∈ term.boundVariables,
      allowed identifier) :
    ∀ identifier ∈ boundVariablesOfAll terms, allowed identifier := by
  intro identifier member
  obtain ⟨term, inside, occurs⟩ := mem_boundVariablesOfAll.mp member
  exact each term inside identifier occurs

/-- All variables that are bound inside have a property. -/
theorem compositional_boundVariables (allowed : Text → Prop) :
    Compositional (fun _ => True) (fun _ => True)
      fun term => ∀ identifier ∈ term.boundVariables, allowed identifier where
  truth _ member := absurd member (by simp [HolTerm.truth, boundVariables])
  call _ _ _ arguments := by
    rw [call, boundVariables, boundVariables]
    exact forall_mem_boundVariablesOfAll arguments
  applySection _ _ _ arguments := by
    rw [boundVariables, boundVariables]
    exact forall_mem_boundVariablesOfAll arguments
  operation _ _ _ _ left right := by
    rw [boundVariables]
    exact List.forall_mem_append.mpr ⟨left, right⟩
  conjunction _ _ parts := by
    rw [boundVariables]
    exact forall_mem_boundVariablesOfAll parts
  functions _ _ := trivial
  index _ _ member := absurd member (by simp [boundVariables])
  ofSort _ _ _ _ := trivial
  apply _ _ function arguments := by
    rw [boundVariables]
    exact List.forall_mem_append.mpr
      ⟨function, forall_mem_boundVariablesOfAll arguments⟩
  conditional _ _ _ test first second := by
    rw [boundVariables]
    exact List.forall_mem_append.mpr
      ⟨List.forall_mem_append.mpr ⟨test, first⟩, second⟩
  update _ _ _ function argument value := by
    rw [boundVariables]
    exact List.forall_mem_append.mpr
      ⟨List.forall_mem_append.mpr ⟨function, argument⟩, value⟩
  constantFunction _ _ _ value := by
    rw [boundVariables]
    exact value
  typed _ _ _ _ arguments _ := by
    rw [boundVariables]
    exact forall_mem_boundVariablesOfAll arguments
  isIntegral _ number := by
    rw [boundVariables]
    exact number

end HolTerm

end ModelAudit
