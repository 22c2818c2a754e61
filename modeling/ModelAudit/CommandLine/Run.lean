import ModelAudit.CommandLine.Arguments
import ModelAudit.CommandLine.Path
import ModelAudit.CommandLine.World

/-!
# A run of the program

Reads a formula and a model, checks the model with the chosen checker, and
reports how the run ended. The exit status tells a verdict from malformed input,
misuse, trouble with the environment and a run that a checker rejects.

Computations have no limits here: how deep they may nest, how many digits a
number may have, and whether a shifted number fits into memory plays no part.
What the prover writes counts as decoded.
-/

namespace ModelAudit

inductive LogLevel
  | info
  | warning
  | error
deriving DecidableEq

def LogLevel.name : LogLevel → Text
  | info => "INFO"
  | warning => "WARNING"
  | error => "ERROR"

structure LogEntry where
  level : LogLevel
  message : Text
deriving DecidableEq

def LogEntry.text (entry : LogEntry) : Text :=
  "[" ++ entry.level.name ++ "] " ++ entry.message

def LogEntry.isShown (entry : LogEntry) (verbosity : Verbosity) : Bool :=
  match verbosity, entry.level with
  | .quiet, .info => false
  | _, _ => true

/-- What no rule provides for, so that a run breaks off. -/
inductive Breakdown
  /-- A file or standard input is not encoded in UTF-8. -/
  | undecodable
  /-- A theory holds a surrogate, which no encoding has. -/
  | unencodable
  /-- The system refuses to tell what is at a path, or to write there. -/
  | system (fault : SystemFault)
  | overrides (fault : OperatorTable.OverrideFault)
  /-- The input makes the reader fail in a way that is not reported. -/
  | reader (fault : Fault)
  /-- The time limit is not a number. -/
  | limitNotANumber
  /-- The time limit is too long to be waited for. -/
  | limitTooLong

/-- The theory cannot be written where it should be kept. -/
@[match_pattern]
abbrev Breakdown.unwritable (fault : SystemFault) : Breakdown :=
  .system fault

/-- How a run ends, with the message of each kind of failure. -/
inductive Ending
  | verdict (kind : VerdictKind)
  | help
  | misuse (message : Text)
  | malformedInput (message : Text)
  | unusableEnvironment (message : Text)
  | rejectedRun (message : Text)
  | broken (cause : Breakdown)

def verdictMessage : VerdictKind → Text
  | .satisfied => "Model is valid"
  | .refuted => "Model is not valid"
  | .indeterminate => "Unknown result"

namespace Ending

/-- The exit status; none for a run that breaks off. -/
def status? : Ending → Option Nat
  | verdict _ => some 0
  | help => some 0
  | malformedInput _ => some 1
  | misuse _ => some 2
  | unusableEnvironment _ => some 3
  | rejectedRun _ => some 4
  | broken _ => none

def output : Ending → Text
  | verdict kind => kind.word ++ "\n"
  | _ => []

/-- The last entry of the log, if the ending makes one. -/
def closing? : Ending → Option LogEntry
  | verdict kind => some ⟨.info, verdictMessage kind⟩
  | malformedInput message | unusableEnvironment message
  | rejectedRun message =>
    some ⟨.error, message⟩
  | help | misuse _ | broken _ => none

end Ending

structure Report where
  ending : Ending
  /-- The entries of the log that are shown. -/
  log : List LogEntry
  /-- The file that has been written, with its contents. -/
  written : Option (Text × Text)

namespace Run

/-- A part of a run: it writes log entries and may end the run. -/
abbrev Step := ExceptT Ending (StateM (List LogEntry))

def note (level : LogLevel) (message : Text) : Step Unit :=
  modify fun entries => entries ++ [⟨level, message⟩]

def breakOff {Result : Type} (cause : Breakdown) : Step Result :=
  throw (.broken cause)

/-- How the run ends with a step: with its verdict or where the step stops. -/
def attempt (step : Step VerdictKind) : Step Ending := do
  match ← ExceptT.lift (ExceptT.run step) with
  | .ok kind => return .verdict kind
  | .error ending => return ending

/-- The ending of a run, and the file that was written with its contents. -/
structure Outcome where
  ending : Ending
  written : Option (Text × Text)

/-! ## Input -/

def readText (world : World) (path : Text) : Step Text :=
  let shown := (Path.ofText path).text
  match world.contents shown with
  | .error kind => throw (.malformedInput (SystemFault.message ⟨kind, shown⟩))
  | .ok bytes =>
    match Text.ofFile? bytes with
    | some text => return text
    | none => breakOff .undecodable

def readModelText (world : World) : ModelSource → Step Text
  | .file path => readText world path
  | .standardInput =>
    match world.standardInput with
    | some text => return text
    | none => breakOff .undecodable

/-- A fault of the reader ends the run; those without a message break it off. -/
def failReading {Result : Type} (fault : Fault) : Step Result :=
  match fault with
  | .emptyIdentifier | .digitWithoutValue | .noFormula =>
    breakOff (.reader fault)
  | _ => throw (.malformedInput fault.message)

/-- Reads both texts. The model's answers are looked at once the formula is
read. -/
def readPair (formulaText modelText : Text) : Step Session.Pair := do
  match Session.start.readFormula formulaText with
  | (.error fault, _) => failReading fault
  | (.ok formula, session) =>
    if SolverOutput.hasSeveralAnswers modelText then
      note .warning SolverOutput.severalAnswersWarning
    match session.readModel modelText with
    | (.error fault, _) => failReading fault
    | (.ok model, session) => return ⟨formula, model, session.symbols⟩

/-! ## Time limits -/

def limitMilliseconds (limit : Quantity) : Binary64 :=
  limit.toBinary64.timesNat 1000

/-- The longest time in milliseconds that a process can be waited for. -/
def longestWait : Nat :=
  2147483647

def requireFiniteLimit (limit : Quantity) : Step Unit :=
  match limitMilliseconds limit with
  | .nan => breakOff .limitNotANumber
  | .infinite _ => breakOff .limitTooLong
  | .finite _ _ _ => return ()

def requireWaitableLimit (limit : Quantity) : Step Unit := do
  requireFiniteLimit limit
  if (limitMilliseconds limit).exceeds longestWait then breakOff .limitTooLong

/-! ## Checking with Isabelle -/

def overridesMessage (path : Text) : Text :=
  "Cannot read operator overrides " ++ path

/-- Goes on if the system tells what is at a path. -/
def look (world : World) (path : Text) : Step Unit :=
  match world.lookFault? path with
  | some kind => breakOff (.system ⟨kind, path⟩)
  | none => return ()

/-- The theory root at a path. A file with overrides that is there must be
readable. -/
def theoryRoot (world : World) (path : Path) : Step TheoryRoot := do
  let overridesPath := (path.child TheoryRoot.overridesName).text
  look world overridesPath
  match world.contents overridesPath with
  | .ok bytes => return ⟨overridesPath, some bytes⟩
  | .error kind =>
    if kind.isAbsence then return ⟨overridesPath, none⟩
    else throw (.unusableEnvironment (overridesMessage overridesPath))

def rootMessage (path : Text) : Text :=
  "Theory root is not a directory: " ++ path

def startMessage (executable : Text) (fault : SystemFault) : Text :=
  "Cannot start Isabelle (" ++ executable ++ "): " ++ fault.message

def timeoutMessage (limit : Quantity) : Text :=
  "Isabelle timed out after " ++ limit.toBinary64.fixedText 1 ++ "s"

/-- A message with excerpts of what a checker wrote. -/
def messageWithOutput (message output errors : Text) : Text :=
  message ++ "\nSTDOUT:\n" ++ output ++ "\nSTDERR:\n" ++ errors

def rejectedMessage (rejected : RejectedRun) : Text :=
  messageWithOutput rejected.message rejected.output rejected.errors

def failUnsupported {Result : Type} (fault : Unsupported) : Step Result :=
  throw (.malformedInput fault.message)

def operators (root : TheoryRoot) : Step OperatorTable :=
  match root.operators with
  | .ok operators => return operators
  | .error (.unreadable path) =>
    throw (.unusableEnvironment (overridesMessage path))
  | .error (.malformed fault) => breakOff (.overrides fault)

/-- The text of the theory for a pair. The log tells how far the translation
gets. -/
def theoryText (root : TheoryRoot) (config : Config) (pair : Session.Pair) :
    Step Text := do
  let operators ← operators root
  if Obligation.translatesFormula operators pair then
    note .info "Converted formula"
    if Obligation.translatesModel operators pair
      then note .info "Converted model"
  match Obligation.ofPair operators pair with
  | .ok obligation => return obligation.theoryText config
  | .error fault => failUnsupported fault

def prove (world : World) (config : Config) (root : Path) (theory : Text) :
    Step ProverRun := do
  look world root.text
  if !world.isDirectory root.text
    then throw (.unusableEnvironment (rootMessage root.text))
  if (Text.encodeUtf8? theory).isNone then breakOff .unencodable
  note .info "Checking lemma with Isabelle"
  match world.prove (config.command root.text) theory config.timeout with
  | .error kind =>
    throw (.unusableEnvironment
      (startMessage config.isabelle ⟨kind, config.isabelle⟩))
  | .ok run =>
    requireWaitableLimit config.timeout
    if run.ending = .timedOut then note .warning (timeoutMessage config.timeout)
    return run

def judgeTheory (world : World) (config : Config) (root : Path)
    (theory : Text) : Step VerdictKind := do
  let run ← prove world config root theory
  match run.verdict Validation.checkerName with
  | .ok verdict =>
    note .info ("Verdict: " ++ verdict.describe)
    return verdict.kind
  | .error rejected => throw (.rejectedRun (rejectedMessage rejected))

/-- Writes the theory where the user wants to keep it. -/
def keep (world : World) (path theory : Text) : Step (Text × Text) := do
  let shown := (Path.ofText path).text
  match world.writeFault? shown with
  | some kind => breakOff (.unwritable ⟨kind, shown⟩)
  | none =>
    if (Text.encodeUtf8? theory).isNone then breakOff .unencodable
    note .info ("Wrote theory to " ++ path)
    return (shown, theory)

/-- Checks a pair with Isabelle. The theory is kept also if the run fails. -/
def checkWithIsabelle (world : World) (arguments : Arguments) (config : Config)
    (pair : Session.Pair) : Step Outcome := do
  let root := Path.ofText (arguments.root.getD [])
  let theory ← theoryText (← theoryRoot world root) config pair
  let result ← attempt (judgeTheory world config root theory)
  let written ← arguments.keepTheory.mapM fun path => keep world path theory
  return ⟨result, written⟩

/-! ## Asking the solver -/

/-- How long the solver may take for an answer. -/
def solverLimit (limit : Quantity) : Nat :=
  max 1 (limitMilliseconds limit).truncated.toNat

/-- The message of a complaint of the solver's library, which writes nothing. -/
def complaintMessage (complaint : Text) : Text :=
  messageWithOutput ("z3 rejected the obligation: " ++ complaint) [] []

def complain {Result : Type} (complaint : Text) : Step Result :=
  throw (.rejectedRun (complaintMessage complaint))

def askSolver (world : World) (config : Config) (pair : Session.Pair) :
    Step VerdictKind := do
  if let some complaint := world.solver.refusal? pair then complain complaint
  match Inquiry.ofPair pair with
  | .error fault => failUnsupported fault
  | .ok inquiry =>
    requireFiniteLimit config.timeout
    match inquiry.verdict
      (world.solver.answer (solverLimit config.timeout)) with
    | .ok verdict => return verdict.kind
    | .error complaint => complain complaint

/-! ## The whole run -/

def configuration (world : World) (arguments : Arguments) : Step Config :=
  match Config.ofEnvironment world.environment arguments.settings with
  | .ok config => return config
  | .error fault => throw (.misuse fault.message)

def check (world : World) (arguments : Arguments) : Step Outcome := do
  let config ← configuration world arguments
  let formulaText ← readText world arguments.formula
  let modelText ← readModelText world arguments.model
  let pair ← readPair formulaText modelText
  match arguments.backend with
  | .isabelle => checkWithIsabelle world arguments config pair
  | .solver => return ⟨.verdict (← askSolver world config pair), none⟩

/-- The report on a run that has written these entries to its log. -/
def report (verbosity : Verbosity) (outcome : Outcome) (log : List LogEntry) :
    Report :=
  let entries := log ++ outcome.ending.closing?.toList
  ⟨outcome.ending, entries.filter fun entry => entry.isShown verbosity,
    outcome.written⟩

end Run

/-- Runs the program on the words of its command line. -/
def run (world : World) (words : List Text) : Report :=
  match Arguments.parse words with
  | .error .help => ⟨.help, [], none⟩
  | .error (.usage fault) => ⟨.misuse fault.message, [], none⟩
  | .ok arguments =>
    match (Run.check world arguments).run.run [] with
    | (.ok outcome, log) => Run.report arguments.verbosity outcome log
    | (.error ending, log) => Run.report arguments.verbosity ⟨ending, none⟩ log

end ModelAudit
