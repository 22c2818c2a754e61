import ModelAudit.Proofs.RunSteps
import ModelAudit.Proofs.UnfoldingCycles

/-!
# What the answers of a solver lead to

The answers to the two questions decide which verdict there is, whatever solver
is asked. Questions can be asked unless an assertion leads into a recursive
definition, and they are answered unless the library of the solver complains.
-/

namespace ModelAudit

namespace Inquiry

section Answers

variable {Complaint : Type} {ask : Question → Except Complaint Answer}
  {inquiry : Inquiry}

/-- The kind of verdict that the answers lead to. -/
inductive Decides (ask : Question → Except Complaint Answer)
    (inquiry : Inquiry) :
    VerdictKind → Prop
  /-- The formula cannot fail. -/
  | satisfied : ask inquiry.failing = .ok .unsatisfiable →
      Decides ask inquiry .satisfied
  /-- The formula cannot hold. -/
  | refuted {first : Answer} : ask inquiry.failing = .ok first →
      first ≠ .unsatisfiable →
      ask inquiry.holding = .ok .unsatisfiable → Decides ask inquiry .refuted
  | indeterminate {first second : Answer} : ask inquiry.failing = .ok first →
      first ≠ .unsatisfiable → ask inquiry.holding = .ok second →
      second ≠ .unsatisfiable → Decides ask inquiry .indeterminate

/-- There is a complaint instead of an answer. -/
inductive Complains (ask : Question → Except Complaint Answer)
    (inquiry : Inquiry) (complaint : Complaint) : Prop
  | failing : ask inquiry.failing = .error complaint →
      Complains ask inquiry complaint
  | holding {first : Answer} : ask inquiry.failing = .ok first →
      first ≠ .unsatisfiable →
      ask inquiry.holding = .error complaint → Complains ask inquiry complaint

/-- The second question is asked if the formula may fail. -/
theorem verdict_of_failing {first : Answer}
    (fails : ask inquiry.failing = .ok first)
    (possible : first ≠ .unsatisfiable) :
    inquiry.verdict ask = (do
      match ← ask inquiry.holding with
      | .unsatisfiable => return judgement .refuted none
      | second =>
        return judgement .indeterminate (some (diagnostic first second))) := by
  rw [verdict, fails, Outcome.ok_bind]
  cases first with
  | unsatisfiable => exact absurd rfl possible
  | _ => rfl

/-- The answers decide the kind of the verdict. -/
theorem Decides.verdict_eq {kind : VerdictKind}
    (decides : Decides ask inquiry kind) :
    ∃ verdict, inquiry.verdict ask = .ok verdict ∧ verdict.kind = kind := by
  cases decides with
  | satisfied never =>
      rw [verdict, never]
      exact ⟨_, rfl, rfl⟩
  | refuted fails possible never =>
      rw [verdict_of_failing fails possible, never]
      exact ⟨_, rfl, rfl⟩
  | @indeterminate _ second fails possible holds alsoPossible =>
      rw [verdict_of_failing fails possible, holds, Outcome.ok_bind]
      cases second with
      | unsatisfiable => exact absurd rfl alsoPossible
      | _ => exact ⟨_, rfl, rfl⟩

/-- A complaint takes the place of the verdict. -/
theorem Complains.verdict_eq {complaint : Complaint}
    (complains : Complains ask inquiry complaint) :
    inquiry.verdict ask = .error complaint := by
  cases complains with
  | failing refused =>
      rw [verdict, refused]
      rfl
  | holding fails possible refused =>
      rw [verdict_of_failing fails possible, refused]
      rfl

/-- There is a verdict or a complaint. -/
theorem decides_or_complains (ask : Question → Except Complaint Answer)
    (inquiry : Inquiry) :
    (∃ kind, Decides ask inquiry kind) ∨
    ∃ complaint, Complains ask inquiry complaint := by
  cases fails : ask inquiry.failing with
  | error complaint => exact .inr ⟨complaint, .failing fails⟩
  | ok first =>
      by_cases possible : first = .unsatisfiable
      · exact .inl ⟨_, .satisfied (possible ▸ fails)⟩
      cases holds : ask inquiry.holding with
      | error complaint => exact .inr ⟨complaint, .holding fails possible holds⟩
      | ok second =>
          by_cases alsoPossible : second = .unsatisfiable
          · exact .inl ⟨_, .refuted fails possible (alsoPossible ▸ holds)⟩
          · exact .inl ⟨_, .indeterminate fails possible holds alsoPossible⟩

end Answers

/-- Questions about a pair can be asked unless an assertion leads into a
recursive definition. -/
theorem exists_ofPair_iff {pair : Session.Pair} :
    (∃ inquiry, ofPair pair = .ok inquiry) ↔
      ∀ subject ∈ pair.formula.assertions, ∀ first ∈ subject.uses [],
        ¬LeadsIntoCycle Definition.uses
          (definitionTable (pair.formula.definitions ++ pair.model.definitions))
            first := by
  rw [← Unfolding.assertions_eq_ok_iff]
  constructor
  · rintro ⟨inquiry, made⟩
    obtain ⟨expressions, unfolded, _⟩ := Outcome.bind_eq_ok.mp made
    exact ⟨expressions, unfolded⟩
  · rintro ⟨expressions, unfolded⟩
    exact ⟨_, Outcome.bind_eq_ok.mpr ⟨expressions, unfolded, rfl⟩⟩

end Inquiry

namespace Run

variable {world : World} {config : Config} {pair : Session.Pair}
  {inquiry : Inquiry}

/-- The answers that the solver has for a run, or its complaints. -/
def answers (world : World) (config : Config) : Question → Except Text Answer :=
  world.solver.answer (solverLimit config.timeout)

theorem stops_askSolver_of_refusal {complaint : Text}
    (refused : world.solver.refusal? pair = some complaint) :
    StopsWith (some 4) (askSolver world config pair) := by
  have stops : StopsWith (some 4) (complain complaint : Step Unit) :=
    stopsWith_throw _
  simp only [askSolver, refused]
  exact stops.bind

theorem stops_askSolver_of_recursion {fault : Unsupported}
    (willing : world.solver.refusal? pair = none)
    (recursive : Inquiry.ofPair pair = .error fault) :
    StopsWith (some 1) (askSolver world config pair) := by
  simp only [askSolver, willing, recursive]
  exact stopsWith_throw _

theorem stops_askSolver_of_endless (willing : world.solver.refusal? pair = none)
    (made : Inquiry.ofPair pair = .ok inquiry)
    (endless : ¬FiniteLimit config.timeout) :
    StopsWith none (askSolver world config pair) := by
  simp only [askSolver, willing, made]
  exact (stops_requireFiniteLimit endless).bind

theorem stops_askSolver_of_complaint {complaint : Text}
    (willing : world.solver.refusal? pair = none)
    (made : Inquiry.ofPair pair = .ok inquiry)
    (finite : FiniteLimit config.timeout)
    (complains : inquiry.Complains (answers world config) complaint) :
    StopsWith (some 4) (askSolver world config pair) := by
  have unanswered := complains.verdict_eq
  rw [answers] at unanswered
  simp only [askSolver, willing, made, unanswered]
  exact (gives_requireFiniteLimit finite).bind_stops (stopsWith_throw _)

theorem gives_askSolver {kind : VerdictKind}
    (willing : world.solver.refusal? pair = none)
    (made : Inquiry.ofPair pair = .ok inquiry)
    (finite : FiniteLimit config.timeout)
    (decides : inquiry.Decides (answers world config) kind) :
    Gives (askSolver world config pair) (.ok kind) := by
  obtain ⟨verdict, answered, rfl⟩ := decides.verdict_eq
  rw [answers] at answered
  simp only [askSolver, willing, made, answered]
  exact (gives_requireFiniteLimit finite).bind (gives_pure _)

end Run

end ModelAudit
