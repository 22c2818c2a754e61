import ModelAudit.Prover.Run
import ModelAudit.Text.Pattern
import ModelAudit.Theory.Lemma
import ModelAudit.Verdict

/-!
# From runs to verdicts

A run confirms the lemma if the process succeeded and printed the marker at the
end of the theory. Otherwise the messages decide: a counterexample, or a subgoal
`False` that is left, refutes the lemma, and a failed proof leaves the question
open. A run without any of these messages is rejected: something is wrong with
the theory or with the prover.
-/

namespace ModelAudit

structure RejectedRun where
  status : Option Int
  /-- The end of standard output. -/
  output : Text
  /-- The end of standard error. -/
  errors : Text
deriving DecidableEq

def RejectedRun.message (rejected : RejectedRun) : Text :=
  match rejected.status with
  | none => "Isabelle process terminated with exit status None"
  | some status =>
    if status = 0 then "Isabelle finished without confirming the lemma"
    else "Isabelle process terminated with exit status " ++ Text.integer status

namespace ProverRun

/-- All that the process wrote, its errors on lines of their own after the
output. -/
def transcript (run : ProverRun) : Text :=
  run.output ++ CodePoint.ofChar '\n' :: run.errors

/-- Whether the message stands somewhere in what the process wrote. -/
def mentions (run : ProverRun) (message : Text) : Bool :=
  Text.mentions message run.transcript

/-- What remains to be shown when simplification has refuted the goal. -/
def falseSubgoal : Text :=
  "1. False"

def counterexampleMessages : List Text :=
  ["Nitpick found a counterexample", "Quickcheck found a counterexample"]

def failedProofMessages : List Text :=
  ["Failed to finish proof", "Failed to apply proof method"]

/-- What a run that refutes the lemma writes. -/
def refutationPatterns : List Pattern :=
  .alone falseSubgoal :: counterexampleMessages.map fun message =>
    [.word message]

def refutes (run : ProverRun) : Bool :=
  refutationPatterns.any fun pattern => pattern.occursIn run.transcript

def failsProof (run : ProverRun) : Bool :=
  failedProofMessages.any run.mentions

/-- The verdict of a run, under the given name of the prover. -/
def verdict (run : ProverRun) (prover : Text) : Except RejectedRun Verdict :=
  let judge (kind : VerdictKind) (diagnostic : Option Text) :
    Except RejectedRun Verdict :=
    .ok ⟨kind, diagnostic, prover, run.milliseconds⟩
  match run.ending with
  | .timedOut => judge .indeterminate (some "timeout")
  | .finished status =>
    if status = some 0 && run.mentions Theory.provedMarker
      then judge .satisfied none
    else if run.refutes then judge .refuted (some run.outputExcerpt)
    else if run.failsProof then judge .indeterminate (some run.outputExcerpt)
    else .error ⟨status, run.outputExcerpt, run.errorsExcerpt⟩

end ProverRun

end ModelAudit
