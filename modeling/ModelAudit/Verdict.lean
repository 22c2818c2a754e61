import ModelAudit.Number.Quantity

/-!
# Verdicts

The answer to the question whether a model satisfies a formula.
-/

namespace ModelAudit

inductive VerdictKind
  /-- The formula holds in the model. -/
  | satisfied
  /-- The formula does not hold in the model. -/
  | refuted
  | indeterminate
deriving DecidableEq

/-- The word that a solver uses for this kind of answer. -/
def VerdictKind.word : VerdictKind → Text
  | satisfied => "sat"
  | refuted => "unsat"
  | indeterminate => "unknown"

structure Verdict where
  kind : VerdictKind
  /-- Why the verdict is indeterminate, or what the prover said. -/
  diagnostic : Option Text
  /-- The name of the checker that answered. -/
  prover : Text
  milliseconds : Quantity
deriving DecidableEq

namespace Verdict

def holds (verdict : Verdict) : Bool :=
  verdict.kind = .satisfied

def effort (prover : Text) (milliseconds : Quantity) : Text :=
  prover ++ ", " ++ milliseconds.toBinary64.fixedText 2 ++ "ms"

/-- The verdict on one line, followed by the diagnostic unless it is absent or
empty. -/
def describe (verdict : Verdict) : Text :=
  let summary :=
    verdict.kind.word ++ " (" ++ effort verdict.prover
      verdict.milliseconds ++ ")"
  match verdict.diagnostic with
  | none | some [] => summary
  | some diagnostic => summary ++ ": " ++ diagnostic

end Verdict

end ModelAudit
