import ModelAudit.CommandLine.Console
import ModelAudit.Proofs.RunFindings

/-!
# What the exit status tells

A run with valid arguments ends with a verdict, with malformed input, with an
environment that cannot be used, or with a run of a checker that says nothing;
or it breaks off. What the program finds around it decides which.
-/

namespace ModelAudit

namespace Run

variable {world : World} {arguments : Arguments} {config : Config}
  {pair : Session.Pair} {theory : Text}

/-! ## How a run ends -/

/-- How a run ends that checks its input with this result. -/
def conclusion : Except Ending Outcome → Ending
  | .ok outcome => outcome.ending
  | .error ending => ending

/-- A run with these arguments ends so. -/
def Ends (world : World) (arguments : Arguments) (ending : Ending) : Prop :=
  ∃ result, Gives (check world arguments) result ∧ conclusion result = ending

/-- Once the command line is understood, its arguments decide how the run
ends. -/
theorem Ends.ending_run {words : List Text} {ending : Ending}
    (ends : Ends world arguments ending)
    (parsed : Arguments.parse words = .ok arguments) :
    (run world words).ending = ending := by
  obtain ⟨result, gives, rfl⟩ := ends
  have now := gives []
  unfold run
  rw [parsed]
  dsimp only
  split
  next outcome log checked =>
    rw [checked] at now
    subst now
    rfl
  next ending log checked =>
    rw [checked] at now
    subst now
    rfl

/-- A run with these arguments has this exit status, or none if it breaks
off. -/
def HasStatus (world : World) (arguments : Arguments)
    (status : Option Nat) : Prop :=
  ∃ ending, Ends world arguments ending ∧ ending.status? = status

theorem StopsWith.hasStatus {status : Option Nat}
    (stops : StopsWith status (check world arguments)) :
    HasStatus world arguments status := by
  obtain ⟨ending, gives, isStatus⟩ := stops
  exact ⟨ending, ⟨_, gives, rfl⟩, isStatus⟩

/-- If the run does not break off, the theory can be kept where it should be. -/
theorem HasTheory.keeps (has : HasTheory world arguments config theory)
    (steady : ¬BreaksOff world arguments config) :
    ∃ written, Gives
      (arguments.keepTheory.mapM fun path => keep world path theory)
      (.ok written) := by
  cases wanted : arguments.keepTheory with
  | none => exact ⟨none, gives_pure _⟩
  | some path =>
      have encodable : Encodable theory := by
        by_contra surrogate
        exact steady
          (.surrogate has surrogate (.inr (by rw [wanted, Option.isSome_some])))
      have writable : world.writeFault? (Path.ofText path).text = none := by
        by_contra refused
        obtain ⟨kind, refused⟩ := Option.ne_none_iff_exists'.mp refused
        exact steady (.keeping has wanted refused)
      exact ⟨_, (gives_keep writable encodable).bind (gives_pure _)⟩

theorem HasTheory.seen (has : HasTheory world arguments config theory)
    (steady : ¬BreaksOff world arguments config) :
    world.lookFault? (rootPath arguments).text = none := by
  by_contra hidden
  obtain ⟨kind, hidden⟩ := Option.ne_none_iff_exists'.mp hidden
  exact steady (.hiddenRoot has hidden)

section Configured

variable (configured : Config.ofEnvironment world.environment
  arguments.settings = .ok config)

include configured

theorem gives_configuration :
    Gives (configuration world arguments) (.ok config) := by
  simp only [configuration, configured]
  exact gives_pure _

variable {status : Option Nat} {formulaText modelText : Text}

theorem stops_check_of_formula
    (stops : StopsWith status (readModelText world (.file arguments.formula))) :
    StopsWith status (check world arguments) :=
  (gives_configuration configured).bind_stops stops.bind

theorem stops_check_of_model
    (formula : (ModelSource.file arguments.formula).Holds world formulaText)
    (stops : StopsWith status (readModelText world arguments.model)) :
    StopsWith status (check world arguments) :=
  (gives_configuration configured).bind_stops
    (formula.gives.bind_stops stops.bind)

theorem Given.stops_check (given : Given world arguments formulaText modelText)
    (stops : StopsWith status (readPair formulaText modelText)) :
    StopsWith status (check world arguments) :=
  (gives_configuration configured).bind_stops
    (given.formula.gives.bind_stops (given.model.gives.bind_stops stops.bind))

/-- When the pair has been read, all depends on the checker. -/
theorem Reads.gives_check {result : Except Ending Outcome}
    (reads : Reads world arguments pair)
    (gives : Gives (match arguments.backend with
      | .isabelle => checkWithIsabelle world arguments config pair
      | .solver =>
        return ⟨.verdict (← askSolver world config pair), none⟩) result) :
    Gives (check world arguments) result := by
  obtain ⟨formulaText, modelText, given, read⟩ := reads
  exact (gives_configuration configured).bind (given.formula.gives.bind
    (given.model.gives.bind ((gives_readPair read).bind gives)))

theorem Reads.stops_root (reads : Reads world arguments pair)
    (isabelle : arguments.backend = .isabelle)
    (stops : StopsWith status (theoryRoot world (rootPath arguments))) :
    StopsWith status (check world arguments) := by
  obtain ⟨ending, gives, isStatus⟩ := stops
  refine ⟨ending, reads.gives_check configured ?_, isStatus⟩
  rw [isabelle]
  exact gives.stop

theorem Reads.stops_theory (reads : Reads world arguments pair)
    (isabelle : arguments.backend = .isabelle) {found : Option (List UInt8)}
    (holds : HoldsOverrides world (rootPath arguments) found)
    (stops : StopsWith status
      (theoryText ⟨overridesPath (rootPath arguments), found⟩ config pair)) :
    StopsWith status (check world arguments) := by
  obtain ⟨ending, gives, isStatus⟩ := stops
  refine ⟨ending, reads.gives_check configured ?_, isStatus⟩
  rw [isabelle]
  exact holds.gives.bind gives.stop

theorem Asks.gives_check (asks : Asks world arguments pair) {kind : VerdictKind}
    (gives : Gives (askSolver world config pair) (.ok kind)) :
    Gives (check world arguments) (.ok ⟨.verdict kind, none⟩) := by
  apply asks.reads.gives_check configured
  rw [asks.solver]
  exact gives.bind (gives_pure _)

theorem Reads.stops_solver (reads : Reads world arguments pair)
    (solver : arguments.backend = .solver)
    (stops : StopsWith status (askSolver world config pair)) :
    StopsWith status (check world arguments) := by
  obtain ⟨ending, gives, isStatus⟩ := stops
  refine ⟨ending, reads.gives_check configured ?_, isStatus⟩
  rw [solver]
  exact gives.stop

/-- With a theory the check is to judge it and to keep it. -/
theorem HasTheory.gives_check (has : HasTheory world arguments config theory)
    {result : Except Ending VerdictKind}
    {kept : Except Ending (Option (Text × Text))}
    (judged : Gives
      (judgeTheory world config (rootPath arguments) theory) result)
    (keeps : Gives
      (arguments.keepTheory.mapM fun path => keep world path theory) kept) :
    Gives (check world arguments)
      (kept.map fun written => ⟨endingOf result, written⟩) := by
  obtain ⟨pair, operators, obligation, reads, isabelle,
    ⟨overrides, holds, found⟩, translated, rfl⟩ := has
  apply reads.gives_check configured
  rw [isabelle]
  refine holds.gives.bind
    ((gives_theoryText found translated).bind (judged.attempt.bind ?_))
  cases kept with
  | ok written => exact keeps.bind (gives_pure _)
  | error ending => exact keeps.stop

/-- If the run does not break off, it ends as the theory is judged. -/
theorem HasTheory.ends (has : HasTheory world arguments config theory)
    (steady : ¬BreaksOff world arguments config)
    {result : Except Ending VerdictKind}
    (judged : Gives (judgeTheory world config (rootPath arguments) theory)
      result) :
    Ends world arguments (endingOf result) := by
  obtain ⟨written, keeps⟩ := has.keeps steady
  exact ⟨_, has.gives_check configured judged keeps, rfl⟩

/-- A run breaks off if keeping the theory does, however the theory is
judged. -/
theorem HasTheory.breaksOff_of_keep
    (has : HasTheory world arguments config theory) {path : Text}
    (wanted : arguments.keepTheory = some path)
    (stops : StopsWith none (keep world path theory)) :
    HasStatus world arguments none := by
  obtain ⟨result, judged⟩ :=
    exists_gives_judgeTheory world config (rootPath arguments) theory
  obtain ⟨ending, gives, isStatus⟩ := stops
  have keeps :
      Gives (arguments.keepTheory.mapM fun path => keep world path theory)
      (.error ending) := by
    rw [wanted]
    exact gives.stop
  have checked := has.gives_check configured judged keeps
  exact ⟨ending, ⟨_, checked, rfl⟩, isStatus⟩

/-- A run breaks off if judging the theory does, whether or not the theory is
kept. -/
theorem HasTheory.breaksOff_of_judge
    (has : HasTheory world arguments config theory)
    (stops : StopsWith none
      (judgeTheory world config (rootPath arguments) theory)) :
    HasStatus world arguments none := by
  obtain ⟨ending, judged, isStatus⟩ := stops
  rcases keep_cases world arguments.keepTheory theory
    with ⟨written, keeps⟩ | ⟨path, wanted, stops⟩
  · have checked := has.gives_check configured judged keeps
    exact ⟨ending, ⟨_, checked, rfl⟩, isStatus⟩
  · exact has.breaksOff_of_keep configured wanted stops

/-! ## What is found decides how the run ends -/

/-- Each condition breaks the run off at a step of its own, and the steps before
it give results. -/
theorem BreaksOff.hasStatus (breaksOff : BreaksOff world arguments config) :
    HasStatus world arguments none := by
  cases breaksOff with
  | formula undecodable =>
    exact (stops_check_of_formula configured undecodable.stops).hasStatus
  | model formula undecodable =>
      exact (stops_check_of_model configured formula
        undecodable.stops).hasStatus
  | reader given breaksOff =>
      obtain ⟨fault, failed, crash⟩ := Session.pairBreaksOff_iff.mp breaksOff
      have stops := stops_readPair failed
      rw [crash] at stops
      exact (given.stops_check configured stops).hasStatus
  | @overrides _ bytes _ reads isabelle holds isRead shapeless =>
      let root : TheoryRoot := ⟨overridesPath (rootPath arguments), some bytes⟩
      have malformed : ∃ fault, root.operators = .error (.malformed fault) :=
        TheoryRoot.exists_malformed_iff.mpr ⟨_, _, rfl, isRead, shapeless⟩
      obtain ⟨fault, malformed⟩ := malformed
      exact (reads.stops_theory configured isabelle holds
        (stops_theoryText_of_malformed malformed)).hasStatus
  | hiddenOverrides reads isabelle hidden =>
      exact (reads.stops_root configured isabelle
        (stops_look hidden).bind).hasStatus
  | hiddenRoot has hidden =>
      exact has.breaksOff_of_judge configured
        (stops_prove_of_hidden hidden).bind
  | surrogate has unencodable written =>
      rcases written with directory | wanted
      · exact has.breaksOff_of_judge configured (breaksOff_prove fun seen =>
          stops_prove_of_surrogate seen directory unencodable).bind
      · obtain ⟨path, wanted⟩ := Option.isSome_iff_exists.mp wanted
        exact has.breaksOff_of_keep configured wanted
          (stops_keep_of_surrogate path unencodable)
  | keeping has wanted refused =>
      exact has.breaksOff_of_keep configured wanted
        (stops_keep_of_unwritable refused)
  | waiting has directory encodable answered unwaitable =>
      exact has.breaksOff_of_judge configured (breaksOff_prove fun seen =>
        stops_prove_of_unwaitable seen directory encodable answered
          unwaitable).bind
  | asking asks made endless =>
      exact (asks.reads.stops_solver configured asks.solver
        (stops_askSolver_of_endless asks.willing made endless)).hasStatus

/-- Malformed input ends the run with status 1, whichever step notices it. -/
theorem MalformedInput.hasStatus (malformed : MalformedInput world arguments) :
    HasStatus world arguments (some 1) := by
  cases malformed with
  | formula closed =>
    exact (stops_check_of_formula configured closed.stops).hasStatus
  | model formula closed =>
    exact (stops_check_of_model configured formula closed.stops).hasStatus
  | rejected given failed rejection =>
      have stops := stops_readPair failed
      rw [rejection] at stops
      exact (given.stops_check configured stops).hasStatus
  | untranslatable reads isabelle operators untranslated =>
      obtain ⟨overrides, holds, found⟩ := operators
      exact (reads.stops_theory configured isabelle holds
        (stops_theoryText_of_unsupported found untranslated)).hasStatus
  | @recursive pair _ _ asks member used leads =>
      cases made : Inquiry.ofPair pair with
      | ok inquiry =>
          exact absurd leads
            (Inquiry.exists_ofPair_iff.mp ⟨inquiry, made⟩ _ member _ used)
      | error fault =>
          exact (asks.reads.stops_solver configured asks.solver
            (stops_askSolver_of_recursion asks.willing made)).hasStatus

/-- What the environment lacks ends the run with status 3, whichever step needs
it. -/
theorem UnusableEnvironment.hasStatus
    (unusable : UnusableEnvironment world arguments config)
    (steady : ¬BreaksOff world arguments config) :
    HasStatus world arguments (some 3) := by
  cases unusable with
  | @overrides _ bytes reads isabelle holds unreadable =>
      let root : TheoryRoot := ⟨overridesPath (rootPath arguments), some bytes⟩
      have malformed : ∃ path, root.operators = .error (.unreadable path) :=
        TheoryRoot.exists_unreadable_iff.mpr ⟨_, rfl, unreadable⟩
      obtain ⟨path, unreadable⟩ := malformed
      exact (reads.stops_theory configured isabelle holds
        (stops_theoryText_of_unreadable unreadable)).hasStatus
  | closedOverrides reads isabelle unreadable =>
      exact (reads.stops_root configured isabelle unreadable.stops).hasStatus
  | root has missing =>
      obtain ⟨ending, judged, isStatus⟩ :=
        (stops_prove_of_noDirectory (has.seen steady) missing).bind
      exact ⟨ending, has.ends configured steady judged, isStatus⟩
  | prover has directory encodable refused =>
      obtain ⟨ending, judged, isStatus⟩ :=
        (stops_prove_of_unstarted
          (has.seen steady) directory encodable refused).bind
      exact ⟨ending, has.ends configured steady judged, isStatus⟩

/-- A prover that says nothing about the lemma, or a solver that complains, ends
the run with status 4. -/
theorem UnclassifiableRun.hasStatus
    (unclassifiable : UnclassifiableRun world arguments config)
    (steady : ¬BreaksOff world arguments config) :
    HasStatus world arguments (some 4) := by
  cases unclassifiable with
  | prover has proves unjudged =>
      obtain ⟨ending, judged, isStatus⟩ :=
        stops_judgeTheory_of_rejected proves unjudged
      exact ⟨ending, has.ends configured steady judged, isStatus⟩
  | refusal reads solver refused =>
      exact (reads.stops_solver configured solver
        (stops_askSolver_of_refusal refused)).hasStatus
  | complaint asks made finite complains =>
      exact (asks.reads.stops_solver configured asks.solver
        (stops_askSolver_of_complaint asks.willing made finite
          complains)).hasStatus

/-- The verdict of the checker ends the run unless something breaks it off. -/
theorem Judges.ends {kind : VerdictKind}
    (judges : Judges world arguments config kind)
    (steady : ¬BreaksOff world arguments config) :
    Ends world arguments (.verdict kind) := by
  cases judges with
  | prover has proves judged =>
    exact has.ends configured steady (gives_judgeTheory proves judged)
  | solver asks made finite decides =>
      have checked := asks.gives_check configured
        (gives_askSolver asks.willing made finite decides)
      exact ⟨_, checked, rfl⟩

/-- What a run finds decides its exit status. -/
theorem Warrants.hasStatus (warrants : Warrants world arguments config status) :
    HasStatus world arguments status := by
  cases warrants with
  | breaksOff breaksOff => exact breaksOff.hasStatus configured
  | malformedInput malformed => exact malformed.hasStatus configured
  | unusableEnvironment unusable steady =>
    exact unusable.hasStatus configured steady
  | unclassifiableRun unclassifiable steady =>
    exact unclassifiable.hasStatus configured steady
  | verdict judges steady => exact ⟨_, judges.ends configured steady, rfl⟩

end Configured

end Run

/-! ## The contract -/

open Run

theorem Ending.output_of_status {ending : Ending}
    (failed : ending.status? ≠ some 0) :
    ending.output = [] := by
  cases ending with
  | verdict kind => exact absurd rfl failed
  | _ => rfl

theorem VerdictKind.word_injective : Function.Injective VerdictKind.word := by
  intro first second same
  cases first <;> cases second <;> first | rfl | cases same

section Contract

variable {world : World} {words : List Text} {arguments : Arguments}
  {config : Config}

theorem Run.HasStatus.status_run {status : Option Nat}
    (has : HasStatus world arguments status)
    (parsed : Arguments.parse words = .ok arguments) :
    (run world words).ending.status? = status := by
  obtain ⟨ending, ends, isStatus⟩ := has
  rw [ends.ending_run parsed, isStatus]

theorem Report.standardOutput_of_verdict {report : Report} {kind : VerdictKind}
    (judged : report.ending = .verdict kind) :
    report.standardOutput = kind.word ++ "\n" := by
  simp only [standardOutput, judged]
  rfl

theorem Report.standardOutput_of_status {report : Report}
    (failed : report.ending.status? ≠ some 0) : report.standardOutput = [] := by
  unfold standardOutput
  split
  next help => exact absurd (congrArg Ending.status? help) failed
  · exact Ending.output_of_status failed

/-- The exit status is the one that goes with what the run finds. -/
theorem status_run_iff (parsed : Arguments.parse words = .ok arguments)
    (configured : Config.ofEnvironment world.environment arguments.settings =
      .ok config)
    {status : Option Nat} :
    (run world words).ending.status? = status ↔
      Warrants world arguments config status := by
  constructor
  · rintro rfl
    obtain ⟨status, warrants⟩ := exists_warrants world arguments config
    rw [(warrants.hasStatus configured).status_run parsed]
    exact warrants
  · intro warrants
    exact (warrants.hasStatus configured).status_run parsed

/-- A run prints the word of a verdict and nothing else if it comes to that
verdict. -/
theorem standardOutput_run_iff (parsed : Arguments.parse words = .ok arguments)
    (configured : Config.ofEnvironment world.environment arguments.settings =
      .ok config)
    {kind : VerdictKind} :
    (run world words).standardOutput = kind.word ++ "\n" ↔
      Judges world arguments config kind ∧
      ¬BreaksOff world arguments config := by
  constructor
  · intro printed
    have succeeded : (run world words).ending.status? = some 0 := by
      by_contra failed
      rw [Report.standardOutput_of_status failed] at printed
      cases kind <;> cases printed
    cases (status_run_iff parsed configured).mp succeeded with
    | @verdict judged judges steady =>
        have ending := (judges.ends configured steady).ending_run parsed
        rw [Report.standardOutput_of_verdict ending] at printed
        obtain rfl :=
          VerdictKind.word_injective (List.append_cancel_right printed)
        exact ⟨judges, steady⟩
  · rintro ⟨judges, steady⟩
    exact Report.standardOutput_of_verdict
      ((judges.ends configured steady).ending_run parsed)

/-- A run with valid arguments has exit status 0, 1, 3 or 4 unless it breaks
off, whatever the files hold and whatever the prover and the solver do. It has
status 1 exactly if the input is malformed, status 3 if the environment cannot
be used, status 4 if the run of the prover or of the solver tells nothing, and
status 0 if there is a verdict, whose word is then all that is printed. -/
theorem run_exitStatus (parsed : Arguments.parse words = .ok arguments)
    (configured : Config.ofEnvironment world.environment arguments.settings =
      .ok config) :
    ((run world words).ending.status? = none ↔
      BreaksOff world arguments config) ∧
    (¬BreaksOff world arguments config →
      (run world words).ending.status? ∈ [some 0, some 1, some 3, some 4]) ∧
    ((run world words).ending.status? = some 1 ↔
      MalformedInput world arguments) ∧
    ((run world words).ending.status? = some 3 ↔
      UnusableEnvironment world arguments config ∧
      ¬BreaksOff world arguments config) ∧
    ((run world words).ending.status? = some 4 ↔
      UnclassifiableRun world arguments config ∧
      ¬BreaksOff world arguments config) ∧
    (∀ kind, (run world words).standardOutput = kind.word ++ "\n" ↔
      Judges world arguments config kind ∧ ¬BreaksOff world arguments config) ∧
    ((run world words).ending.status? = some 0 ↔
      ∃ kind : VerdictKind, (run world words).standardOutput =
        kind.word ++ "\n") ∧
    ((run world words).standardOutput = [] ↔
      (run world words).ending.status? ≠ some 0) := by
  have status_iff : ∀ status, (run world words).ending.status? = status ↔
      Warrants world arguments config status :=
        fun _ => status_run_iff parsed configured
  have printed_iff :
      ∀ kind, (run world words).standardOutput = kind.word ++ "\n" ↔
      Judges world arguments config kind ∧ ¬BreaksOff world arguments config :=
    fun _ => standardOutput_run_iff parsed configured
  have succeeded_iff : (run world words).ending.status? = some 0 ↔
      ∃ kind : VerdictKind, (run world words).standardOutput =
        kind.word ++ "\n" := by
    rw [status_iff]
    constructor
    · rintro ⟨⟩
      next kind judges steady =>
        exact ⟨kind, (printed_iff kind).mpr ⟨judges, steady⟩⟩
    · rintro ⟨kind, printed⟩
      obtain ⟨judges, steady⟩ := (printed_iff kind).mp printed
      exact .verdict judges steady
  refine ⟨?_, ?_, ?_, ?_, ?_, printed_iff, succeeded_iff, ?_⟩
  · rw [status_iff]
    exact ⟨fun | .breaksOff breaksOff => breaksOff, .breaksOff⟩
  · intro steady
    obtain ⟨status, warrants⟩ := exists_warrants world arguments config
    rw [(status_iff status).mpr warrants]
    cases warrants with
    | breaksOff breaksOff => exact absurd breaksOff steady
    | _ => simp
  · rw [status_iff]
    exact ⟨fun | .malformedInput malformed => malformed, .malformedInput⟩
  · rw [status_iff]
    exact ⟨fun | .unusableEnvironment unusable steady => ⟨unusable, steady⟩,
      fun ⟨unusable, steady⟩ => .unusableEnvironment unusable steady⟩
  · rw [status_iff]
    exact ⟨fun | .unclassifiableRun unclassifiable steady => ⟨unclassifiable,
      steady⟩,
      fun ⟨unclassifiable, steady⟩ => .unclassifiableRun unclassifiable steady⟩
  · constructor
    · intro silent succeeded
      obtain ⟨kind, printed⟩ := succeeded_iff.mp succeeded
      rw [silent] at printed
      cases kind <;> cases printed
    · exact Report.standardOutput_of_status

end Contract

/-! ## A file that is no text -/

/-- A world in which every file holds these bytes, no program can be started,
and the solver finds no answer in time. -/
def uniformWorld (bytes : List UInt8) : World where
  contents := fun _ => .ok bytes
  isDirectory := fun _ => true
  lookFault? := fun _ => none
  writeFault? := fun _ => none
  environment := fun _ => none
  standardInput := none
  prove := fun _ _ _ => .error .missing
  solver := ⟨fun _ => none, fun _ _ => .ok (.unknown "timeout")⟩

def plainWords : List Text :=
  ["formula.smt2", "--model", "model.smt2", "-T", "root"]

def plainArguments : Arguments where
  formula := "formula.smt2"
  model := .file "model.smt2"
  root := some "root"
  timeout := none
  backend := .isabelle
  isabelle := none
  logic := none
  method := none
  keepTheory := none
  verbosity := .normal

/-- A formula of a single byte that begins no encoding breaks the run off. -/
theorem strayByte_breaksOff :
    Arguments.parse plainWords = .ok plainArguments ∧
    Config.ofEnvironment
        (uniformWorld [0xFF]).environment plainArguments.settings =
      .ok .default ∧
    (run (uniformWorld [0xFF]) plainWords).ending.status? = none ∧
    (run (uniformWorld [0xFF]) plainWords).standardOutput = [] := by
  have parsed : Arguments.parse plainWords = .ok plainArguments := rfl
  have configured : Config.ofEnvironment (uniformWorld [0xFF]).environment
      plainArguments.settings = .ok .default := rfl
  have contract := run_exitStatus parsed configured
  have brokenOff :
      (run (uniformWorld [0xFF]) plainWords).ending.status? = none :=
    contract.1.mpr (.formula (.file rfl rfl))
  refine ⟨parsed, configured, brokenOff, contract.2.2.2.2.2.2.2.mpr ?_⟩
  rw [brokenOff]
  exact nofun

end ModelAudit
