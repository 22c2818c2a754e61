import ModelAudit.Proofs.Outcome
import ModelAudit.Theory.Obligation

/-!
# The parts of an obligation

Where the parts of an obligation come from that has been assembled without
fault.
-/

namespace ModelAudit.Obligation

open Translation

/-- The constants and functions that a model declares and the assertions depend
on. -/
def declaredUniverse (formula : Formula) (model : Model) : List Declaration :=
  model.declarations.filter fun declaration =>
    (reached formula model).contains declaration.name

/-- What is known of an assembled obligation. -/
structure Assembled (operators : OperatorTable) (pair : Session.Pair)
    (obligation : Obligation) :
    Prop where
  fixed :
    (usedDeclarations pair.symbols (reached pair.formula pair.model)
        (kept pair.formula pair.model)).mapM
          (fixedSymbol (vocabulary operators pair.symbols)) =
      .ok obligation.fixed
  equations :
    equationsOf (vocabulary operators pair.symbols) (rootScope pair.symbols)
      (kept pair.formula pair.model) = .ok obligation.equations
  distinct :
    obligation.distinct =
        (Universe.groups (declaredUniverse pair.formula pair.model)).map
      fun (_, names) => names.map Identifier.escape
  goal : ∃ translated,
    goals (vocabulary operators pair.symbols)
      (rootScope pair.symbols) pair.formula =
        .ok translated ∧
      obligation.goal = .conjoin translated

variable {operators : OperatorTable} {pair : Session.Pair}
  {obligation : Obligation}

theorem assembled_of_ofPair
    (assembled : ofPair operators pair = .ok obligation) :
    Assembled operators pair obligation := by
  rw [ofPair] at assembled
  obtain ⟨goals, goalsTranslated, assembled⟩ := Outcome.bind_eq_ok.mp assembled
  obtain ⟨equations, equationsTranslated, assembled⟩ :=
    Outcome.bind_eq_ok.mp assembled
  obtain ⟨helpers, _, assembled⟩ := Outcome.bind_eq_ok.mp assembled
  obtain ⟨fixed, fixedTranslated, assembled⟩ := Outcome.bind_eq_ok.mp assembled
  obtain rfl := Except.ok.inj assembled
  exact ⟨fixedTranslated, equationsTranslated, rfl, goals, goalsTranslated, rfl⟩

/-- The helpers are the closure of those that the applied operators are spelled
with. -/
theorem helpers_of_ofPair (assembled : ofPair operators pair = .ok obligation) :
    ∃ listed,
      helpersOf operators ((pair.formula.assertions ++
          (kept pair.formula pair.model).map Definition.body).flatMap
            Term.operators) =
        .ok listed ∧
      obligation.helpers = Helper.closure listed := by
  rw [ofPair] at assembled
  obtain ⟨_, _, assembled⟩ := Outcome.bind_eq_ok.mp assembled
  obtain ⟨_, _, assembled⟩ := Outcome.bind_eq_ok.mp assembled
  obtain ⟨listed, found, assembled⟩ := Outcome.bind_eq_ok.mp assembled
  obtain ⟨_, _, assembled⟩ := Outcome.bind_eq_ok.mp assembled
  obtain rfl := Except.ok.inj assembled
  exact ⟨listed, found, rfl⟩

/-- The equations of a lemma are those of the kept definitions, in their
order. -/
theorem Assembled.map_fst_equations
    (assembled : Assembled operators pair obligation) :
    obligation.equations.map Prod.fst =
      (kept pair.formula pair.model).map fun definition =>
        Identifier.escape definition.name := by
  refine Outcome.map_eq_of_mapM assembled.equations
    fun definition translated computed => ?_
  obtain ⟨value, _, shape⟩ := Outcome.bind_eq_ok.mp computed
  obtain rfl := Except.ok.inj shape
  rfl

end ModelAudit.Obligation
