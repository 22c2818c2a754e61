import ModelAudit.Prover.Classification
import ModelAudit.Theory.Obligation
import ModelAudit.Theory.Root

/-!
# Validation with Isabelle

A formula and a model become a theory, the prover runs on it, and the run
becomes a verdict. `IsabelleChecker` remembers the last theory, also if the run
failed, and the last verdict.
-/

namespace ModelAudit

namespace Obligation

/-- An obligation has no empty group of assumptions, so its theory has a
text. -/
theorem isSome_theory_text? (obligation : Obligation) (config : Config) :
    ((obligation.theory config).text?).isSome := by
  have groups : ∀ assumption ∈ obligation.assumptions,
      (Lemma.assumptionText? assumption).isSome := by
    intro assumption member
    have nonempty : !assumption.snd.isEmpty := (List.mem_filter.mp member).2
    obtain ⟨label, propositions⟩ := assumption
    cases propositions with
    | nil => simp at nonempty
    | cons first others => simp [Lemma.assumptionText?]
  have all : ∀ assumptions : List (Text × List Text),
      (∀ assumption ∈ assumptions, (Lemma.assumptionText? assumption).isSome) →
      (assumptions.mapM Lemma.assumptionText?).isSome := by
    intro assumptions
    induction assumptions with
    | nil => simp
    | cons first others inductionHypothesis =>
        intro each
        obtain ⟨text, textFound⟩ :=
          Option.isSome_iff_exists.mp (each first (by simp))
        obtain ⟨texts, textsFound⟩ := Option.isSome_iff_exists.mp
          (inductionHypothesis fun assumption member => each assumption
            (by simp [member]))
        simp [List.mapM_cons, textFound, textsFound]
  obtain ⟨texts, found⟩ := Option.isSome_iff_exists.mp (all _ groups)
  simp [Theory.text?, Lemma.text?, theory, statement, found]

def theoryText (obligation : Obligation) (config : Config) : Text :=
  ((obligation.theory config).text?).get (obligation.isSome_theory_text? config)

end Obligation

inductive ValidationFault
  | root (fault : TheoryRootFault)
  | unsupported (fault : Unsupported)
  | rejected (run : RejectedRun)

namespace Validation

/-- The name under which verdicts of Isabelle are reported. -/
def checkerName : Text :=
  "isabelle"

/-- The text of the theory for a pair. -/
def theoryText (root : TheoryRoot) (config : Config) (pair : Session.Pair) :
    Except ValidationFault Text := do
  let operators ← root.operators.mapError .root
  let obligation ← (Obligation.ofPair operators pair).mapError .unsupported
  return obligation.theoryText config

def verdict (run : ProverRun) : Except ValidationFault Verdict :=
  (run.verdict checkerName).mapError .rejected

end Validation

structure IsabelleChecker where
  root : TheoryRoot
  config : Config
  lastTheory : Option Text
  lastVerdict : Option Verdict

namespace IsabelleChecker

def start (root : TheoryRoot) (config : Config) : IsabelleChecker :=
  ⟨root, config, none, none⟩

/-- Checks a pair with a prover, which maps the text of a theory to a run. -/
def check (checker : IsabelleChecker) (prover : Text → ProverRun)
    (pair : Session.Pair) : Except ValidationFault Verdict × IsabelleChecker :=
  match Validation.theoryText checker.root checker.config pair with
  | .error fault => (.error fault, checker)
  | .ok theory =>
    let checker := { checker with lastTheory := some theory }
    match Validation.verdict (prover theory) with
    | .error fault => (.error fault, checker)
    | .ok verdict => (.ok verdict, { checker with lastVerdict := some verdict })

end IsabelleChecker

/-- The checkers that a user may choose. -/
inductive Backend
  | isabelle
  | solver
deriving DecidableEq

namespace Backend

/-- The solver under the name of what may stand in for it. -/
@[match_pattern]
abbrev evaluation : Backend :=
  .solver

def name : Backend → Text
  | isabelle => "isabelle"
  | solver => "z3"

def all : List Backend :=
  [.isabelle, .solver]

def ofName? (name : Text) : Option Backend :=
  all.find? fun backend => backend.name = name

def unknownMessage (name : Text) : Text :=
  "Unknown backend: " ++ name

end Backend

end ModelAudit
