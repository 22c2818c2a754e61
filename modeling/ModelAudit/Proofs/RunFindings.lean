import ModelAudit.Proofs.AnsweringSession
import ModelAudit.Proofs.SolverAnswers

/-!
# What a run finds

A run with valid arguments comes upon something that decides how it ends: a
verdict, malformed input, an environment that cannot be used, a run of a checker
that says nothing, or something that no rule provides for.
-/

namespace ModelAudit

namespace Session

/-- Reading the formula, or the model after the formula, comes to a part of a
term where it stumbles. -/
inductive PairBreaksOff (formulaText modelText : Text) : Prop
  | formula {fault : Fault} :
      start.BreaksOff (.formula formulaText) fault →
      PairBreaksOff formulaText modelText
  | model {formula : Formula} {session : Session} {fault : Fault} :
      start.readFormula formulaText = (.ok formula, session) →
      session.BreaksOff (.model modelText) fault →
      PairBreaksOff formulaText modelText

/-- Reading a pair breaks off exactly if it comes to a term that cannot be
judged, in the formula or in the model. -/
theorem pairBreaksOff_iff {formulaText modelText : Text} :
    PairBreaksOff formulaText modelText ↔
      ∃ fault, readPair formulaText modelText = .error fault ∧
        fault.isRejection = false := by
  constructor
  · intro breaksOff
    cases breaksOff with
    | @formula fault breaksOff =>
        have crash := breaksOff.not_isRejection
        have failed := (readFormula_eq_error_iff crash).mpr breaksOff
        refine ⟨fault, ?_, crash⟩
        unfold readPair
        split
        next other _ read =>
          rw [read] at failed
          rw [Except.error.inj failed]
        next read =>
          rw [read] at failed
          cases failed
    | @model formula session fault read breaksOff =>
        have crash := breaksOff.not_isRejection
        have ready := formulaRead_of_readFormula read
        have failed := (readModel_eq_error_iff crash ready).mpr breaksOff
        exact ⟨fault, readPair_of_readModel read failed, crash⟩
  · rintro ⟨fault, failed, crash⟩
    unfold readPair at failed
    split at failed
    next other _ read =>
      obtain rfl := Except.error.inj failed
      exact .formula
        ((readFormula_eq_error_iff crash).mp (congrArg Prod.fst read))
    next formula session read =>
    split at failed
    next other _ readsModel =>
      obtain rfl := Except.error.inj failed
      have ready := formulaRead_of_readFormula read
      exact .model read
        ((readModel_eq_error_iff crash ready).mp (congrArg Prod.fst readsModel))
    · cases failed

end Session

namespace Run

/-! ## What a run finds -/

/-- The texts that a run starts from. -/
structure Given (world : World) (arguments : Arguments)
    (formulaText modelText : Text) : Prop where
  formula : (ModelSource.file arguments.formula).Holds world formulaText
  model : arguments.model.Holds world modelText

/-- The pair that is read from the texts. -/
def Reads (world : World) (arguments : Arguments)
    (pair : Session.Pair) : Prop :=
  ∃ formulaText modelText, Given world arguments formulaText modelText ∧
    Session.readPair formulaText modelText = .ok pair

/-- The directory that Isabelle is told about. -/
def rootPath (arguments : Arguments) : Path :=
  Path.ofText (arguments.root.getD [])

/-- The file with operator overrides holds these bytes. -/
def HasOverrides (world : World) (arguments : Arguments)
    (bytes : List UInt8) : Prop :=
  HoldsOverrides world (rootPath arguments) (some bytes)

/-- The spellings that the pair is translated with. -/
def HasOperators (world : World) (arguments : Arguments)
    (operators : OperatorTable) : Prop :=
  ∃ found, HoldsOverrides world (rootPath arguments) found ∧
    (⟨overridesPath (rootPath arguments), found⟩ : TheoryRoot).operators =
      .ok operators

/-- The theory that is made of the pair for Isabelle. -/
def HasTheory (world : World) (arguments : Arguments) (config : Config)
    (theory : Text) : Prop :=
  ∃ pair operators obligation, Reads world arguments pair ∧
    arguments.backend = .isabelle ∧
    HasOperators world arguments operators ∧
    Obligation.ofPair operators pair = .ok obligation ∧
    obligation.theoryText config = theory

/-- The solver is to be asked about this pair, and its library makes all
expressions that come up. -/
structure Asks (world : World) (arguments : Arguments) (pair : Session.Pair) :
    Prop where
  reads : Reads world arguments pair
  solver : arguments.backend = .solver
  willing : world.solver.refusal? pair = none

/-- What makes a run break off. How deep computations may nest, how many digits
a number may have and how far a number can be shifted has no limit here, and
what the prover writes is already decoded; so breaking off for such a reason is
left out. -/
inductive BreaksOff (world : World) (arguments : Arguments)
    (config : Config) : Prop
  /-- The bytes of the formula are no text. -/
  | formula : (ModelSource.file arguments.formula).Undecodable world →
      BreaksOff world arguments config
  /-- The bytes of the model are no text. -/
  | model {formulaText : Text} :
      (ModelSource.file arguments.formula).Holds world formulaText →
      arguments.model.Undecodable world → BreaksOff world arguments config
  /-- The reader stumbles over a term. -/
  | reader {formulaText modelText : Text} :
      Given world arguments formulaText modelText →
      Session.PairBreaksOff formulaText modelText →
      BreaksOff world arguments config
  /-- The operator overrides are JSON of another shape. -/
  | overrides {pair : Session.Pair} {bytes : List UInt8} {json : Json} :
      Reads world arguments pair → arguments.backend = .isabelle →
      HasOverrides world arguments bytes →
      TheoryRoot.readJson? bytes = some json →
      ¬OperatorTable.WellShaped json → BreaksOff world arguments config
  /-- The system does not tell whether there are operator overrides. -/
  | hiddenOverrides {pair : Session.Pair} {kind : SystemFaultKind} :
      Reads world arguments pair → arguments.backend = .isabelle →
      world.lookFault? (overridesPath (rootPath arguments)) = some kind →
      BreaksOff world arguments config
  /-- The system does not tell whether the theory root is a directory. -/
  | hiddenRoot {theory : Text} {kind : SystemFaultKind} :
      HasTheory world arguments config theory →
      world.lookFault? (rootPath arguments).text = some kind →
      BreaksOff world arguments config
  /-- A surrogate stands in a theory that is to be written. -/
  | surrogate {theory : Text} : HasTheory world arguments config theory →
      ¬Encodable theory →
      world.isDirectory (rootPath arguments).text = true ∨
      arguments.keepTheory.isSome = true →
      BreaksOff world arguments config
  /-- The theory cannot be kept where it should be. -/
  | keeping {theory path : Text} {kind : SystemFaultKind} :
      HasTheory world arguments config theory →
      arguments.keepTheory = some path →
      world.writeFault? (Path.ofText path).text = some kind →
      BreaksOff world arguments config
  /-- No process can be waited for that long. -/
  | waiting {theory : Text} {run : ProverRun} :
      HasTheory world arguments config theory →
      world.isDirectory (rootPath arguments).text = true → Encodable theory →
      world.prove (config.command (rootPath arguments).text) theory
        config.timeout = .ok run →
      ¬WaitableLimit config.timeout → BreaksOff world arguments config
  /-- The limit for the solver is no number of milliseconds. -/
  | asking {pair : Session.Pair} {inquiry : Inquiry} :
      Asks world arguments pair →
      Inquiry.ofPair pair = .ok inquiry → ¬FiniteLimit config.timeout →
      BreaksOff world arguments config

/-- What is wrong with the input. -/
inductive MalformedInput (world : World) (arguments : Arguments) : Prop
  | formula : (ModelSource.file arguments.formula).Closed world →
      MalformedInput world arguments
  | model {formulaText : Text} :
      (ModelSource.file arguments.formula).Holds world formulaText →
      arguments.model.Closed world → MalformedInput world arguments
  /-- The reader says why it rejects the texts. -/
  | rejected {formulaText modelText : Text} {fault : Fault} :
      Given world arguments formulaText modelText →
      Session.readPair formulaText modelText = .error fault →
      fault.isRejection = true →
      MalformedInput world arguments
  /-- The pair has no translation. -/
  | untranslatable {pair : Session.Pair} {operators : OperatorTable}
      {fault : Unsupported} :
      Reads world arguments pair → arguments.backend = .isabelle →
      HasOperators world arguments operators →
      Obligation.ofPair operators pair = .error fault →
      MalformedInput world arguments
  /-- An assertion leads into a recursive definition, which the solver is not
  asked about. -/
  | recursive {pair : Session.Pair} {subject : Term} {first : Text} :
      Asks world arguments pair → subject ∈ pair.formula.assertions →
      first ∈ subject.uses [] →
      LeadsIntoCycle Definition.uses
        (definitionTable (pair.formula.definitions ++ pair.model.definitions))
        first →
      MalformedInput world arguments

/-- What is wrong with the environment. -/
inductive UnusableEnvironment (world : World) (arguments : Arguments)
    (config : Config) : Prop
  /-- The operator overrides are no JSON. -/
  | overrides {pair : Session.Pair} {bytes : List UInt8} :
      Reads world arguments pair →
      arguments.backend = .isabelle → HasOverrides world arguments bytes →
      TheoryRoot.readJson? bytes = none →
      UnusableEnvironment world arguments config
  /-- There are operator overrides, but the system does not open them. -/
  | closedOverrides {pair : Session.Pair} {kind : SystemFaultKind} :
      Reads world arguments pair → arguments.backend = .isabelle →
      HasUnreadableOverrides world (rootPath arguments) kind →
      UnusableEnvironment world arguments config
  | root {theory : Text} : HasTheory world arguments config theory →
      world.isDirectory (rootPath arguments).text = false →
      UnusableEnvironment world arguments config
  /-- Isabelle cannot be started. -/
  | prover {theory : Text} {kind : SystemFaultKind} :
      HasTheory world arguments config theory →
      world.isDirectory (rootPath arguments).text = true → Encodable theory →
      world.prove (config.command (rootPath arguments).text) theory
        config.timeout = .error kind →
      UnusableEnvironment world arguments config

/-- What keeps the chosen checker from a verdict once it runs. -/
inductive UnclassifiableRun (world : World) (arguments : Arguments)
    (config : Config) : Prop
  /-- The prover runs on the theory, and nothing it says tells a verdict. -/
  | prover {theory : Text} {run : ProverRun} {rejected : RejectedRun} :
      HasTheory world arguments config theory →
      Proves world config (rootPath arguments) theory run →
      run.verdict Validation.checkerName = .error rejected →
      UnclassifiableRun world arguments config
  /-- The library of the solver refuses to make an expression. -/
  | refusal {pair : Session.Pair} {complaint : Text} :
      Reads world arguments pair →
      arguments.backend = .solver →
      world.solver.refusal? pair = some complaint →
      UnclassifiableRun world arguments config
  /-- The library of the solver complains about a question. -/
  | complaint {pair : Session.Pair} {inquiry : Inquiry} {complaint : Text} :
      Asks world arguments pair → Inquiry.ofPair pair = .ok inquiry →
      FiniteLimit config.timeout →
      inquiry.Complains (answers world config) complaint →
      UnclassifiableRun world arguments config

/-- The verdict that the chosen checker comes to. -/
inductive Judges (world : World) (arguments : Arguments) (config : Config) :
    VerdictKind → Prop
  | prover {theory : Text} {run : ProverRun} {verdict : Verdict} :
      HasTheory world arguments config theory →
      Proves world config (rootPath arguments) theory run →
      run.verdict Validation.checkerName = .ok verdict →
      Judges world arguments config verdict.kind
  | solver {pair : Session.Pair} {inquiry : Inquiry} {kind : VerdictKind} :
      Asks world arguments pair → Inquiry.ofPair pair = .ok inquiry →
      FiniteLimit config.timeout → inquiry.Decides (answers world config) kind →
      Judges world arguments config kind

/-- What the run finds goes with this exit status, or with none if it breaks
off. Only malformed input comes first of all; whatever else is found, keeping
the theory may still break the run off. -/
inductive Warrants (world : World) (arguments : Arguments) (config : Config) :
    Option Nat → Prop
  | breaksOff : BreaksOff world arguments config →
      Warrants world arguments config none
  | malformedInput :
      MalformedInput world arguments → Warrants world arguments config (some 1)
  | unusableEnvironment : UnusableEnvironment world arguments config →
      ¬BreaksOff world arguments config →
      Warrants world arguments config (some 3)
  | unclassifiableRun : UnclassifiableRun world arguments config →
      ¬BreaksOff world arguments config →
      Warrants world arguments config (some 4)
  | verdict {kind : VerdictKind} : Judges world arguments config kind →
      ¬BreaksOff world arguments config →
      Warrants world arguments config (some 0)

/-- Something is found that tells how the run ends. -/
inductive Finds (world : World) (arguments : Arguments) (config : Config) : Prop
  | breaksOff : BreaksOff world arguments config → Finds world arguments config
  | malformedInput : MalformedInput world arguments →
      Finds world arguments config
  | unusableEnvironment :
      UnusableEnvironment world arguments config → Finds world arguments config
  | unclassifiableRun : UnclassifiableRun world arguments config →
      Finds world arguments config
  | verdict {kind : VerdictKind} :
      Judges world arguments config kind → Finds world arguments config

variable {world : World} {arguments : Arguments} {config : Config}
  {pair : Session.Pair} {theory : Text}

/-- With a theory the prover is run, and something is found whatever it does. -/
theorem HasTheory.finds (has : HasTheory world arguments config theory) :
    Finds world arguments config := by
  cases seen : world.lookFault? (rootPath arguments).text with
  | some kind => exact .breaksOff (.hiddenRoot has seen)
  | none =>
  by_cases directory : world.isDirectory (rootPath arguments).text = true
  case neg => exact .unusableEnvironment (.root has (by simpa using directory))
  by_cases encodable : Encodable theory
  case neg => exact .breaksOff (.surrogate has encodable (.inl directory))
  cases answered :
    world.prove (config.command (rootPath arguments).text) theory
      config.timeout with
  | error kind =>
    exact .unusableEnvironment (.prover has directory encodable answered)
  | ok run =>
      by_cases waitable : WaitableLimit config.timeout
      case neg =>
        exact .breaksOff (.waiting has directory encodable answered waitable)
      have proves : Proves world config (rootPath arguments) theory run :=
        ⟨seen, directory, encodable, answered, waitable⟩
      cases judged : run.verdict Validation.checkerName with
      | error rejected => exact .unclassifiableRun (.prover has proves judged)
      | ok verdict => exact .verdict (.prover has proves judged)

/-- With the prover chosen, the root directory and the translation decide
first. -/
theorem Reads.finds_isabelle (reads : Reads world arguments pair)
    (isabelle : arguments.backend = .isabelle) :
    Finds world arguments config := by
  rcases holdsOverrides_cases world (rootPath arguments) with
    ⟨overrides, holds⟩ | ⟨kind, unreadable⟩ | ⟨kind, hidden⟩
  · cases found :
      (⟨overridesPath (rootPath arguments), overrides⟩ : TheoryRoot).operators
        with
    | ok operators =>
        have has : HasOperators world arguments operators :=
          ⟨overrides, holds, found⟩
        cases translated : Obligation.ofPair operators pair with
        | ok obligation =>
            exact HasTheory.finds ⟨pair, operators, obligation, reads, isabelle,
              has, translated, rfl⟩
        | error fault =>
            exact .malformedInput
              (.untranslatable reads isabelle has translated)
    | error fault =>
        cases fault with
        | unreadable path =>
            obtain ⟨bytes, rfl, unreadable⟩ :=
              TheoryRoot.exists_unreadable_iff.mp ⟨path, found⟩
            exact .unusableEnvironment
              (.overrides reads isabelle holds unreadable)
        | malformed fault =>
            obtain ⟨bytes, json, rfl, isRead, shapeless⟩ :=
              TheoryRoot.exists_malformed_iff.mp ⟨fault, found⟩
            exact .breaksOff (.overrides reads isabelle holds isRead shapeless)
  · exact .unusableEnvironment (.closedOverrides reads isabelle unreadable)
  · exact .breaksOff (.hiddenOverrides reads isabelle hidden)

/-- With the solver chosen, recursion and complaints come before its answers. -/
theorem Reads.finds_solver (reads : Reads world arguments pair)
    (solver : arguments.backend = .solver) : Finds world arguments config := by
  cases refused : world.solver.refusal? pair with
  | some complaint => exact .unclassifiableRun (.refusal reads solver refused)
  | none =>
  have asks : Asks world arguments pair := ⟨reads, solver, refused⟩
  by_cases made : ∃ inquiry, Inquiry.ofPair pair = .ok inquiry
  · obtain ⟨inquiry, made⟩ := made
    by_cases finite : FiniteLimit config.timeout
    case neg => exact .breaksOff (.asking asks made finite)
    rcases Inquiry.decides_or_complains (answers world config) inquiry with
      ⟨kind, decides⟩ | ⟨complaint, complains⟩
    · exact .verdict (.solver asks made finite decides)
    · exact .unclassifiableRun (.complaint asks made finite complains)
  · rw [Inquiry.exists_ofPair_iff] at made
    push Not at made
    obtain ⟨subject, member, first, used, leads⟩ := made
    exact .malformedInput (.recursive asks member used leads)

theorem Reads.finds (reads : Reads world arguments pair) :
    Finds world arguments config := by
  cases backend : arguments.backend with
  | isabelle => exact reads.finds_isabelle backend
  | solver => exact reads.finds_solver backend

/-- Every run finds something. -/
theorem finds (world : World) (arguments : Arguments) (config : Config) :
    Finds world arguments config := by
  rcases ModelSource.cases world (.file arguments.formula)
    with ⟨formulaText, formula⟩ | closed | undecodable
  · rcases ModelSource.cases world arguments.model
      with ⟨modelText, model⟩ | closed | undecodable
    · have given : Given world arguments formulaText modelText :=
        ⟨formula, model⟩
      cases read : Session.readPair formulaText modelText with
      | ok pair => exact Reads.finds ⟨formulaText, modelText, given, read⟩
      | error fault =>
          cases rejection : fault.isRejection with
          | true => exact .malformedInput (.rejected given read rejection)
          | false =>
              have stumbles :=
                Session.pairBreaksOff_iff.mpr ⟨fault, read, rejection⟩
              exact .breaksOff (.reader given stumbles)
    · exact .malformedInput (.model formula closed)
    · exact .breaksOff (.model formula undecodable)
  · exact .malformedInput (.formula closed)
  · exact .breaksOff (.formula undecodable)

/-- The conditions leave no run out. -/
theorem exists_warrants (world : World) (arguments : Arguments)
    (config : Config) :
    ∃ status, Warrants world arguments config status := by
  by_cases breaksOff : BreaksOff world arguments config
  · exact ⟨none, .breaksOff breaksOff⟩
  cases finds world arguments config with
  | breaksOff broken => exact absurd broken breaksOff
  | malformedInput malformed => exact ⟨some 1, .malformedInput malformed⟩
  | unusableEnvironment unusable =>
    exact ⟨some 3, .unusableEnvironment unusable breaksOff⟩
  | unclassifiableRun unclassifiable =>
      exact ⟨some 4, .unclassifiableRun unclassifiable breaksOff⟩
  | verdict judges => exact ⟨some 0, .verdict judges breaksOff⟩

end Run

end ModelAudit
