import ModelAudit.Proofs.LinePatterns
import ModelAudit.Proofs.TheoryText
import ModelAudit.Prover.Classification

/-!
# Verdicts by the lines of a run

A run is classified by its transcript, where the errors follow the output after
a line feed. The outcome is the one that the lines of both streams decide, each
stream taken by itself: no message and no pattern is found across the place
where the streams are joined, and none is lost there.
-/

namespace ModelAudit.ProverRun

variable (run : ProverRun)

/-- The message stands inside the output or inside the errors. -/
def Prints (message : Text) : Prop :=
  message <:+: run.output ∨ message <:+: run.errors

/-- Some line of the output or of the errors is the message, without the white
space at the ends of the line. -/
def HasLine (message : Text) : Prop :=
  ∃ line ∈ run.output.lines ++ run.errors.lines, line.strip = message

def PrintsRefutation : Prop :=
  run.HasLine falseSubgoal ∨
  ∃ message ∈ counterexampleMessages, run.Prints message

def PrintsFailure : Prop :=
  ∃ message ∈ failedProofMessages, run.Prints message

instance (message : Text) : Decidable (run.Prints message) :=
  inferInstanceAs (Decidable (_ ∨ _))

instance (message : Text) : Decidable (run.HasLine message) :=
  inferInstanceAs (Decidable (∃ _ ∈ _, _))

instance : Decidable run.PrintsRefutation :=
  inferInstanceAs (Decidable (_ ∨ ∃ _ ∈ _, _))

instance : Decidable run.PrintsFailure :=
  inferInstanceAs (Decidable (∃ _ ∈ _, _))

/-- The kind of verdict that the streams decide, or the status of a run that
decides nothing. -/
def decision : Except (Option Int) VerdictKind :=
  match run.ending with
  | .timedOut => .ok .indeterminate
  | .finished status =>
    if status = some 0 ∧ run.Prints Theory.provedMarker then .ok .satisfied
    else if run.PrintsRefutation then .ok .refuted
    else if run.PrintsFailure then .ok .indeterminate
    else .error status

variable {run} {message : Text} {pattern : Pattern}

/-! ## Messages in the transcript -/

theorem mentions_iff_prints (free : CodePoint.ofChar '\n' ∉ message) :
    run.mentions message = true ↔ run.Prints message :=
  Text.mentions_iff.trans (Text.infix_append_cons_iff free)

theorem lineFeed_notMem_messages :
    ∀ message ∈ Theory.provedMarker :: (counterexampleMessages ++
        failedProofMessages),
      CodePoint.ofChar '\n' ∉ message := by
  decide +kernel

theorem trimmed_falseSubgoal : Lexer.Trimmed falseSubgoal where
  opens := by decide
  closes := by decide

theorem occursIn_alone_falseSubgoal_iff {text : Text} :
    (Pattern.alone falseSubgoal).occursIn text = true ↔
      ∃ line ∈ text.lines, line.strip = falseSubgoal :=
  Pattern.occursIn_alone_iff trimmed_falseSubgoal (by decide) (by decide)

theorem occursIn_transcript_alone :
    (Pattern.alone falseSubgoal).occursIn run.transcript = true ↔
      run.HasLine falseSubgoal := by
  rw [occursIn_alone_falseSubgoal_iff, transcript, Text.lines_join]
  rfl

/-- A run refutes the lemma if a line says so, in the output or in the
errors. -/
theorem refutes_iff : run.refutes = true ↔ run.PrintsRefutation := by
  have printed : (∃ message ∈ counterexampleMessages,
        Pattern.occursIn [.word message] run.transcript = true) ↔
      ∃ message ∈ counterexampleMessages, run.Prints message := by
    refine exists_congr fun message => and_congr_right fun member => ?_
    rw [Pattern.occursIn_word_iff]
    exact Text.infix_append_cons_iff
      (lineFeed_notMem_messages message (by simp [member]))
  rw [refutes, refutationPatterns, List.any_cons, Bool.or_eq_true,
    occursIn_transcript_alone, List.any_map, List.any_eq_true]
  exact or_congr_right printed

theorem failsProof_iff : run.failsProof = true ↔ run.PrintsFailure := by
  rw [failsProof, List.any_eq_true]
  refine exists_congr fun message => and_congr_right fun member => ?_
  exact mentions_iff_prints
    (lineFeed_notMem_messages message (by simp [member]))

/-- A pattern for refutations is found in the transcript exactly if it is found
in a stream. -/
theorem occursIn_transcript (member : pattern ∈ refutationPatterns) :
    pattern.occursIn run.transcript =
      (pattern.occursIn run.output || pattern.occursIn run.errors)
    := by
  rw [Bool.eq_iff_iff, Bool.or_eq_true]
  rcases List.mem_cons.mp member with rfl | counterexample
  · rw [occursIn_transcript_alone, occursIn_alone_falseSubgoal_iff,
      occursIn_alone_falseSubgoal_iff, HasLine]
    simp only [List.mem_append, or_and_right, exists_or]
  · obtain ⟨message, listed, rfl⟩ := List.mem_map.mp counterexample
    rw [Pattern.occursIn_word_iff, Pattern.occursIn_word_iff,
      Pattern.occursIn_word_iff]
    exact Text.infix_append_cons_iff
      (lineFeed_notMem_messages message (by simp [listed]))

/-- The verdict of a run, or the status with which it is rejected, is what the
lines of its streams decide. Joining the streams neither makes nor hides a
message. -/
theorem verdict_eq_decision (run : ProverRun) (prover : Text) :
    ((run.verdict prover).map Verdict.kind).mapError RejectedRun.status =
        run.decision ∧
      (∀ message ∈ Theory.provedMarker :: failedProofMessages,
        run.mentions message = (Text.mentions message run.output ||
          Text.mentions message run.errors)) ∧
      ∀ pattern ∈ refutationPatterns, pattern.occursIn run.transcript =
        (pattern.occursIn run.output || pattern.occursIn run.errors) := by
  refine ⟨?_, fun message member => ?_, fun pattern => occursIn_transcript⟩
  · unfold verdict decision
    cases run.ending with
    | timedOut => rfl
    | finished status =>
        have proved :
            (status = some 0 && run.mentions Theory.provedMarker) = true ↔
            status = some 0 ∧ run.Prints Theory.provedMarker := by
          rw [Bool.and_eq_true, decide_eq_true_iff, mentions_iff_prints
            (lineFeed_notMem_messages _ List.mem_cons_self)]
        simp only [proved, refutes_iff, failsProof_iff]
        split_ifs <;> rfl
  · have free : CodePoint.ofChar '\n' ∉ message := by
      refine lineFeed_notMem_messages message ?_
      rcases List.mem_cons.mp member with rfl | failed
      · exact List.mem_cons_self
      · simp [failed]
    rw [Bool.eq_iff_iff, Bool.or_eq_true, mentions_iff_prints free,
      Text.mentions_iff, Text.mentions_iff]
    rfl

/-- The white space behind the subgoal goes on from the output into the
errors. -/
example :
    (⟨.finished (some 1), "goal:\n\u2003 1. False\u00a0\n ", " \n!",
      .integer 0⟩ :
      ProverRun).refutes = true := by
  decide +kernel

end ModelAudit.ProverRun
